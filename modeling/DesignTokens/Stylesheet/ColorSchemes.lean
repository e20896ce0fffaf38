import DesignTokens.Mode.Axis
import DesignTokens.Mode.Names
import DesignTokens.Stylesheet.Rendering

/-!
# Color schemes

Light and dark color tokens meet in one document in one of two ways: as one
declaration with both values, or as light declarations and a block of dark ones that
holds where dark is preferred.
-/

namespace DesignTokens.Stylesheet

inductive ColorStrategy where
  | lightDarkFunction
  | mediaQuery
deriving DecidableEq, Repr

namespace ColorStrategy

def name : ColorStrategy → String
  | .lightDarkFunction => "light-dark-function"
  | .mediaQuery => "media-query"

def table : List (String × ColorStrategy) :=
  [.lightDarkFunction, .mediaQuery].map fun strategy => (strategy.name, strategy)

end ColorStrategy

def prefersDark : String := "(prefers-color-scheme: dark)"

/-- One declaration for a light token, with the dark value beside it if there is a
dark token of that name. -/
def declarePair (options : RenderOptions) (dictionary : Dictionary)
    (dark : List (String × Token)) (name : String) (light : Token) : Traced Declaration := do
  let lightValue ← options.value light dictionary
  match Entries.get? dark name with
  | none => return .custom name lightValue
  | some darkToken => do
    let darkValue ← options.value darkToken dictionary
    return .custom name ("light-dark(" ++ lightValue ++ ", " ++ darkValue ++ ")")

/-- Unmoded declarations, then light ones with their dark values, then dark ones that
have no light one. -/
def lightDarkPart (tokens : List Token) (dictionary : Dictionary) (options : RenderOptions)
    (axis : ModeAxis) : Traced Part := do
  match axis.second? with
  | none => .fail (.shape .noSecondMode)
  | some darkMode => do
    let unmoded ← options.declareOwn dictionary (axis.unmoded tokens)
    let light ← Mode.byName (axis.bucket tokens axis.default) axis.default options.lead
    let dark ← Mode.byName (axis.bucket tokens darkMode) darkMode options.lead
    let paired ← light.mapM fun (name, token) => declarePair options dictionary dark name token
    let alone ← options.declareAll dictionary
      (dark.filter fun (name, _) => !Entries.contains light name)
    return ⟨unmoded ++ paired ++ alone, []⟩

/-- Unmoded and light declarations, and dark ones where dark is preferred. -/
def mediaQueryPart (tokens : List Token) (dictionary : Dictionary) (options : RenderOptions)
    (axis : ModeAxis) : Traced Part := do
  match axis.second? with
  | none => .fail (.shape .noSecondMode)
  | some darkMode => do
    let unmoded ← options.declareOwn dictionary (axis.unmoded tokens)
    let light ← Mode.byName (axis.bucket tokens axis.default) axis.default options.lead
    let lightDeclarations ← options.declareAll dictionary light
    let dark ← Mode.byName (axis.bucket tokens darkMode) darkMode options.lead
    if dark.isEmpty then
      return ⟨unmoded ++ lightDeclarations, []⟩
    else do
      let darkDeclarations ← options.declareAll dictionary dark
      return ⟨unmoded ++ lightDeclarations,
        [.media prefersDark options.selector darkDeclarations]⟩

/-- The color tokens among `tokens`, combined as the strategy says. -/
def colorPart (tokens : List Token) (dictionary : Dictionary) (options : RenderOptions)
    (strategy : ColorStrategy) (axis : ModeAxis) : Traced Part := do
  let colors := tokens.filter fun token => token.type == some "color"
  Traced.note (.renderingColors colors.length strategy.name)
  match strategy with
  | .lightDarkFunction => lightDarkPart colors dictionary options axis
  | .mediaQuery => mediaQueryPart colors dictionary options axis

end DesignTokens.Stylesheet
