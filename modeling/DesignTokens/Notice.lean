import DesignTokens.Error

/-!
# Notices

What a run has to say beside its result: the events it reports, each with a level
and a wording.
-/

namespace DesignTokens

inductive Level where
  | debug
  | info
  | warning
  | error
deriving DecidableEq, Repr

namespace Level

def rank : Level → Nat
  | .debug => 10
  | .info => 20
  | .warning => 30
  | .error => 40

end Level

inductive Notice where
  | unknownEnvironment (name : String)
  | unsupportedColorSpace (space : Value)
  | malformedColor (color : Value) (reason : String)
  | noTokenFiles (pattern : String)
  | skippedStylesheet (file : String)
  | unreadableDirectory (directory : String)
  | noStylesheets (directory : String)
  | emptySettings (file : String)
  | wrote (file : String)
  | wroteIndex (file : String) (imports : Nat)
  | exported (directory : String)
  | builtTier (tier : String)
  | failedTier (tier : String) (error : Error)
  | loadedFile (file : String)
  | loadedTier (tier : String) (loaded output : Nat)
  | selectedCategory (category : String) (count : Nat)
  | renderingColors (count : Nat) (strategy : String)
  | noSettings
deriving Repr

namespace Notice

def level : Notice → Level
  | .unknownEnvironment _ | .unsupportedColorSpace _ | .malformedColor _ _
  | .skippedStylesheet _ | .emptySettings _ => .warning
  | .noTokenFiles _ | .unreadableDirectory _ | .noStylesheets _ | .wrote _ | .wroteIndex _ _
  | .exported _ | .builtTier _ => .info
  | .failedTier _ _ => .error
  | .loadedFile _ | .loadedTier _ _ _ | .selectedCategory _ _ | .renderingColors _ _
  | .noSettings => .debug

/-- The wording of a notice. The time that a build took is not known here and is
written as `N`. -/
def message : Notice → String
  | .unknownEnvironment name =>
    "Unknown DTCG_CSS_ENV value '" ++ name ++
      "'. Valid values: development, test, production. Defaulting to development."
  | .unsupportedColorSpace space => "Unsupported color space: " ++ space.inline
  | .malformedColor color reason => "Malformed color value " ++ color.inline ++ ": " ++ reason
  | .noTokenFiles pattern => "Note: no token files match " ++ pattern
  | .skippedStylesheet file => "Skipping " ++ file ++ ": no breakpoint named for it"
  | .unreadableDirectory directory => "Note: Could not read directory " ++ directory
  | .noStylesheets directory => "Note: No CSS files found in " ++ directory
  | .emptySettings file => "Empty " ++ file ++ ", using defaults"
  | .wrote file => "✓ " ++ file
  | .wroteIndex file imports =>
    "Generated CSS index: " ++ file ++ " (" ++ toString imports ++ " imports)"
  | .exported directory => "Exported Figma tokens to " ++ directory
  | .builtTier tier => "Built all " ++ tier ++ " token files (Nms)"
  | .failedTier tier error => "Failed to build " ++ tier ++ " tokens: " ++ error.message
  | .loadedFile file => "Loaded " ++ file
  | .loadedTier tier loaded output =>
    "Tier " ++ tier ++ ": " ++ toString loaded ++ " tokens loaded, " ++ toString output ++
      " for output"
  | .selectedCategory category count =>
    "Category " ++ category ++ ": " ++ toString count ++ " tokens"
  | .renderingColors count strategy =>
    "Rendering " ++ toString count ++ " color tokens with " ++ strategy
  | .noSettings => "No tokens.yaml found, using defaults"

end Notice

end DesignTokens
