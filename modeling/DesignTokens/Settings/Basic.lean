import DesignTokens.Mode.Breakpoint
import DesignTokens.Settings.Environment
import DesignTokens.Stylesheet.Category

/-!
# Project settings

A project says how its stylesheets are written, whether documents for a design tool
are written too, and of which tiers it consists. Every part may be left out; the
defaults are a layout of three tiers.
-/

namespace DesignTokens

structure BuildSettings where
  logLevel : LogLevel
  /-- The tokens use the keys of the community format. -/
  dtcg : Bool := true
  /-- Tiers are built side by side. -/
  parallel : Bool := true
deriving Repr

structure CssSettings where
  buildPath : String := "dist/css"
  selector : String := ":root"
  lead : Option String := none
  outputReferences : Bool := true
  strategy : Stylesheet.ColorStrategy := .lightDarkFunction
  breakpoints : List Breakpoint := Breakpoint.standard
  elements : Bool := false
deriving Repr

structure FigmaSettings where
  enabled : Bool := false
  buildPath : String := "dist/figma"
deriving Repr

/-- A part of a project with stylesheets of its own. -/
structure Tier where
  name : String
  description : String := ""
  /-- Patterns of files that are only referred to. -/
  included : List String := []
  /-- Patterns of files that are written out. -/
  sources : List String := []
  /-- The file of every mode, by category. -/
  modes : List (String × List (String × String)) := []
deriving DecidableEq, Repr

namespace Tier

/-- The sources in a directory for primitives. -/
def primitiveSources (tier : Tier) : List String :=
  tier.sources.filter fun pattern => Text.contains pattern "/primitive/"

/-- The modes of one category. -/
def modesOf (tier : Tier) (category : String) : List (String × String) :=
  (Entries.get? tier.modes category).getD []

end Tier

structure Settings where
  build : BuildSettings
  css : CssSettings
  figma : FigmaSettings
  /-- Tiers under the names by which they are built. -/
  tiers : List (String × Tier)
  environment : Environment
deriving Repr

namespace Settings

def canonical : String := "./tokens/canonical/"

/-- The color files for every theme and contrast. -/
def standardColors : List (String × String) :=
  ["light", "dark"].flatMap fun theme => ["normalContrast", "highContrast"].map fun contrast =>
    (theme ++ "/" ++ contrast,
      canonical ++ "sites/semantic/color/" ++ theme ++ "/" ++ contrast ++ ".tokens.json")

/-- The dimension files for every width. -/
def standardDimensions : List (String × String) :=
  ["small", "medium", "large", "xLarge"].map fun size =>
    (size, canonical ++ "sites/semantic/dimension/" ++ size ++ ".tokens.json")

def standardModes : List (String × List (String × String)) :=
  [("color", standardColors), ("dimension", standardDimensions)]

def siteSources : List String :=
  [canonical ++ "sites/primitive/**/*.tokens.json", canonical ++ "sites/semantic/*.tokens.json"]

/-- A tier that refers to the tokens of the first one. -/
def dependentTier (name description : String) : Tier where
  name
  description
  included := siteSources
  sources := [canonical ++ name ++ "/semantic/**/*.tokens.json"]
  modes := standardModes

/-- The tiers of a project that names none. -/
def standardTiers : List (String × Tier) :=
  [("sites",
      { name := "sites", description := "Marketing and product sites", sources := siteSources,
        modes := standardModes }),
    ("docs", dependentTier "docs" "Documentation sites"),
    ("apps", dependentTier "apps" "Web applications")]

/-- How the stylesheets of a project are made. -/
def assembly (settings : Settings) : Stylesheet.Assembly where
  options := {
    selector := settings.css.selector
    lead := settings.css.lead
    policy := .always settings.css.outputReferences
    dtcg := settings.build.dtcg }
  strategy := settings.css.strategy
  breakpoints := settings.css.breakpoints
  elements := settings.css.elements

end Settings

end DesignTokens
