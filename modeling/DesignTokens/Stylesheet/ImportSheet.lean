import DesignTokens.Mode.Breakpoint
import DesignTokens.Stylesheet.ColorSchemes
import DesignTokens.Traced

/-!
# Import sheets

One stylesheet imports all others of a tier in the order of the cascade: primitives,
other files, the layers of color files, and dimension files by ascending width. Of
the color layers the later ones win: light without any condition, what the user
prefers, then attributes that choose a theme and a contrast, and at last one
attribute with the other choice left to the user.
-/

namespace DesignTokens.Stylesheet

namespace ImportSheet

/-- Files by the way in which they are imported. -/
structure Groups where
  primitive : List String
  color : List String
  dimension : List String
  other : List String
deriving Repr

/-- The kind of a file; the word for primitives counts anywhere in the path. -/
inductive Kind where
  | primitive
  | color
  | dimension
  | other
deriving DecidableEq, Repr

def kindOf (file : String) : Kind :=
  if Text.contains file "primitive" then .primitive
  else if "color/".isPrefixOf file then .color
  else if "dimension/".isPrefixOf file then .dimension
  else .other

def group (files : List String) : Groups :=
  let ofKind (kind : Kind) := files.filter fun file => kindOf file = kind
  ⟨ofKind .primitive, ofKind .color, ofKind .dimension, ofKind .other⟩

def importOf (file : String) : Item :=
  .statement ("@import './" ++ file ++ "'")

/-- Themes in order of precedence. -/
def themes : List String := ["light", "dark"]

/-- Contrasts with the values of their attribute. -/
def contrasts : List (String × String) := [("normalContrast", "normal"), ("highContrast", "high")]

def prefersMoreContrast : String := "(prefers-contrast: more)"

def attributeIs (name value : String) : String :=
  "[" ++ name ++ "=\"" ++ value ++ "\"]"

def themeIs : String → String := attributeIs "data-theme"

def contrastIs : String → String := attributeIs "data-contrast"

/-- The file of a theme and a contrast, if it is there. -/
def colorFile? (files : List String) (theme contrast : String) : Option String :=
  let file := "color/" ++ theme ++ "/" ++ contrast ++ ".css"
  if file ∈ files then some file else none

def mediaImport (condition file : String) : Item :=
  .block ("@media " ++ condition) [] [importOf file]

/-- A block for one attribute: the file without a condition and the file with one,
those that are there. -/
def fallback (selector : String) (base : Option String) (condition : String)
    (conditional : Option String) : List Item :=
  let children := base.toList.map importOf ++ conditional.toList.map (mediaImport condition)
  if children.isEmpty then [] else [.block selector [] children]

/-- Imports by what the user prefers. -/
def preferences (files : List String) : List Item :=
  let entry (condition theme contrast : String) : List Item :=
    (colorFile? files theme contrast).toList.map (mediaImport condition)
  entry prefersDark "dark" "normalContrast" ++
    entry prefersMoreContrast "light" "highContrast" ++
    entry (prefersDark ++ " and " ++ prefersMoreContrast) "dark" "highContrast"

/-- Imports by a theme and a contrast that are both chosen. -/
def choices (files : List String) : List Item :=
  themes.flatMap fun theme => contrasts.flatMap fun (contrast, value) =>
    (colorFile? files theme contrast).toList.map fun file =>
      .block (themeIs theme ++ contrastIs value) [] [importOf file]

/-- Imports by one choice, the other one left to the user. -/
def halfChoices (files : List String) : List Item :=
  if (colorFile? files "dark" "normalContrast").isSome ∧
      (colorFile? files "light" "highContrast").isSome then
    (themes.flatMap fun theme =>
      fallback (themeIs theme ++ ":not([data-contrast])")
        (colorFile? files theme "normalContrast") prefersMoreContrast
        (colorFile? files theme "highContrast")) ++
    contrasts.flatMap fun (contrast, value) =>
      fallback (contrastIs value ++ ":not([data-theme])")
        (colorFile? files "light" contrast) prefersDark (colorFile? files "dark" contrast)
  else
    []

/-- The sections of the color files. -/
def colorSections (files : List String) : List (List Item) :=
  let chosen := choices files
  let heading := Item.comment "Color tokens with media queries and data attribute overrides" ::
    (colorFile? files "light" "normalContrast").toList.map importOf
  let choiceHeading := if chosen.isEmpty then [] else [[Item.comment "Data attribute overrides"]]
  [heading] ++ (preferences files).map (fun item => [item]) ++ choiceHeading ++
    (chosen ++ halfChoices files).map fun item => [item]

def widthFile (breakpoint : Breakpoint) : String :=
  "dimension/" ++ breakpoint.name ++ ".css"

/-- The sections of the dimension files. A file that no breakpoint names is reported
and left out. -/
def widthSections (files : List String) (table : List Breakpoint) : Traced (List (List Item)) := do
  let ordered := Breakpoint.ascending table
  let unknown := files.eraseDups.filter fun file => !(ordered.map widthFile).contains file
  (unknown.mergeSort fun a b => decide (a ≤ b)).forM fun file =>
    Traced.note (.skippedStylesheet file)
  let present (breakpoint : Breakpoint) : Bool := files.contains (widthFile breakpoint)
  let narrowest := (ordered.take 1).filter present
  let wider := (ordered.drop 1).filter present
  let heading := Item.comment "Dimension tokens with breakpoint media queries" ::
    narrowest.map fun breakpoint => importOf (widthFile breakpoint)
  return heading :: wider.map fun breakpoint =>
    [mediaImport ("(min-width: " ++ breakpoint.minWidth ++ ")") (widthFile breakpoint)]

/-- All sections for the files of a tier. -/
def sections (files : List String) (table : List Breakpoint) : Traced (List (List Item)) := do
  let groups := group (files.mergeSort fun a b => decide (a ≤ b))
  let plain (files : List String) : List (List Item) :=
    if files.isEmpty then [] else [files.map importOf]
  let colors := if groups.color.isEmpty then [] else colorSections groups.color
  let widths ← if groups.dimension.isEmpty then pure []
    else widthSections groups.dimension table
  return plain groups.primitive ++ plain groups.other ++ colors ++ widths

/-- The text that imports the files of a tier. -/
def text (files : List String) (tier : String) (table : List Breakpoint) : Traced String := do
  let parts ← sections files table
  let body := "\n\n".intercalate (parts.map fun items => "\n".intercalate (Item.renderAll 0 items))
  return "/* Auto-generated index file for " ++ tier ++ " tier CSS tokens */\n\n" ++ body ++ "\n"

end ImportSheet

end DesignTokens.Stylesheet
