import DesignTokens.Stylesheet.ColorSchemes
import DesignTokens.Stylesheet.Typography
import DesignTokens.Stylesheet.Widths

/-!
# Documents of a category

Every token belongs to one category of output. A category is written as one
document, or as one document for each of its modes, or together with all others.
-/

namespace DesignTokens.Stylesheet

namespace Category

/-- The categories in the order in which they are built. -/
def all : List String :=
  ["color", "dimension", "typography", "asset", "grid", "duration", "shadow"]

/-- The category of a token: by its type, else by its first name. -/
def ofToken (token : Token) : String :=
  if token.type = some Typography.styleType ∨ Typography.isPlain token then
    "typography"
  else
    match token.type with
    | some type => if type ∈ all then type else ofPath token.path
    | none => ofPath token.path
where
  ofPath (path : TokenPath) : String := path.head?.getD "other"

def select (category : String) (tokens : List Token) : List Token :=
  tokens.filter fun token => ofToken token == category

end Category

/-- How the documents of a platform are made. -/
structure Assembly where
  options : RenderOptions := {}
  strategy : ColorStrategy := .lightDarkFunction
  colorAxis : ModeAxis := .color
  breakpoints : List Breakpoint := Breakpoint.standard
  /-- Headings are also styled as elements. -/
  elements : Bool := false

/-- The text of a document without tokens. -/
def emptyText : String :=
  documentText fileHeader [.comment "No tokens found for this category"]

namespace Assembly

/-- The items of one category. -/
def categoryItems (assembly : Assembly) (category : String) (selected : List Token)
    (dictionary : Dictionary) : Traced (List Item) := do
  let options := assembly.options
  if category = "color" then
    return (← colorPart selected dictionary options assembly.strategy assembly.colorAxis).items
      options.selector
  else if category = "dimension" then
    return (← widthPart selected dictionary options assembly.breakpoints).items options.selector
  else if category = "typography" then
    typographyItems selected dictionary options assembly.elements
  else
    return [.block options.selector (← options.declareOwn dictionary selected) []]

/-- The document of one category. -/
def categoryText (assembly : Assembly) (category : String) (tokens : List Token)
    (dictionary : Dictionary) : Traced String := do
  let selected := Category.select category tokens
  Traced.note (.selectedCategory category selected.length)
  if selected.isEmpty then
    return emptyText
  let items ← assembly.categoryItems category selected dictionary
  return if items.isEmpty then emptyText else documentText fileHeader items

/-- Declares a token under its name without the modes, which must be new. -/
def addModeDeclaration (assembly : Assembly) (mode : String) (dictionary : Dictionary)
    (done : List (String × Token) × List Declaration) (token : Token) :
    Traced (List (String × Token) × List Declaration) := do
  let own := match token.mode with
    | some name => if name.isEmpty then [] else [name]
    | none => []
  let name := token.nameWithoutAll (Text.fields '/' mode ++ own) assembly.options.lead
  let entered ← Mode.enter mode done.1 name token
  let declaration ← assembly.options.declare dictionary name token
  return (entered, done.2 ++ [declaration])

/-- The document of one mode of a category. Every token is declared in the root block
under its name without the modes, so that all modes declare the same properties. -/
def modeText (assembly : Assembly) (category mode : String) (tokens : List Token)
    (dictionary : Dictionary) : Traced String := do
  let selected := Category.select category tokens
  if selected.isEmpty then
    return emptyText
  let (_, declarations) ← selected.foldlM (assembly.addModeDeclaration mode dictionary) ([], [])
  return documentText fileHeader [.block assembly.options.selector declarations []]

/-- Tokens that are neither colors nor dimensions nor composite styles. -/
def isPlainProperty (token : Token) : Bool :=
  token.type != some "color" && token.type != some "dimension" && !Typography.isComposite token

/-- The items of all categories in one document. -/
def combinedItems (assembly : Assembly) (tokens : List Token) (dictionary : Dictionary) :
    Traced (List Item) := do
  let options := assembly.options
  let others ← options.declareOwn dictionary (tokens.filter isPlainProperty)
  let colors ← colorPart tokens dictionary options assembly.strategy assembly.colorAxis
  let widths ← widthPart tokens dictionary options assembly.breakpoints
  let composites := tokens.filter Typography.isComposite
  let styles ← if composites.isEmpty then pure []
    else typographyItems composites dictionary options assembly.elements
  return (Part.mk others [] ++ colors ++ widths).items options.selector ++ styles

/-- All categories in one document. -/
def combinedText (assembly : Assembly) (tokens : List Token) (dictionary : Dictionary) :
    Traced String :=
  documentText fileHeader <$> assembly.combinedItems tokens dictionary

end Assembly

end DesignTokens.Stylesheet
