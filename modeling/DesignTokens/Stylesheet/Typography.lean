import DesignTokens.Mode.Names
import DesignTokens.Stylesheet.Rendering

/-!
# Text styles

A composite typography token becomes one class with a declaration for each of its
parts. A variant of a style takes every part that it does not define itself from the
default token of the same group and mode. Font families, weights and styles, and
whatever else lies in the typography group, become plain properties.
-/

namespace DesignTokens.Stylesheet

namespace Typography

/-- The type of composite tokens. -/
def styleType : String := "typography"

/-- Types that are always plain properties. -/
def plainTypes : List String := ["fontFamily", "fontWeight", "fontStyle"]

/-- The parts of a style in the order in which they are written, with the property and
the type of each. A part without a type of its own has the type of the style. -/
def parts : List (String × String × Option String) :=
  [("fontFamily", "font-family", some "fontFamily"),
    ("fontSize", "font-size", some "dimension"),
    ("fontWeight", "font-weight", some "fontWeight"),
    ("lineHeight", "line-height", none),
    ("letterSpacing", "letter-spacing", some "dimension"),
    ("fontStyle", "font-style", some "fontStyle"),
    ("textDecoration", "text-decoration", none),
    ("letterCase", "font-variant-caps", none),
    ("figureStyle", "font-variant-numeric", none),
    ("fontPosition", "vertical-align", none)]

def isComposite (token : Token) : Bool :=
  token.type == some styleType && token.value.isObject

def isPlain (token : Token) : Bool :=
  (token.type.any fun type => plainTypes.contains type) ||
    (token.path.head? == some styleType && token.type != some styleType)

def groupWord : List Char := "typography-".toList

/-- What follows the first group word that stands right after a hyphen, before the end
of the line. -/
def afterInnerGroup? : List Char → Option (List Char)
  | [] => none
  | c :: rest =>
    if c = '\n' then none
    else if c = '-' ∧ groupWord.isPrefixOf rest then some (rest.drop groupWord.length)
    else afterInnerGroup? rest

/-- The class of a style: its property name without the name of the group and without
what stands before that. -/
def className (token : Token) : String :=
  let name := token.name.toList
  String.ofList <|
    match afterInnerGroup? name with
    | some rest => rest
    | none => if groupWord.isPrefixOf name then name.drop groupWord.length else name

/-- The path that the variants of a style under all modes share. -/
def variantPath (token : Token) : TokenPath :=
  match token.mode with
  | some mode => if mode.isEmpty then token.path else token.pathWithout mode
  | none => token.path

/-- The last name of a variant's path. -/
def variantName (token : Token) : Except Error String :=
  match (variantPath token).getLast? with
  | some name => .ok name
  | none => .error (.shape .noPath)

/-- A group of styles and the mode of its default. -/
abbrev DefaultKey := TokenPath × Option String

/-- The default style of every group, those of different modes kept apart. -/
def defaults : List Token → Except Error (List (DefaultKey × Token)) :=
  List.foldlM (fun found token => do
    if isComposite token then
      let name ← variantName token
      if name = Token.defaultVariant then
        return Entries.insert found ((variantPath token).dropLast, token.mode) token
    return found) []

/-- The authored parts of a style; for an alias the parts it stands for. -/
def authoredParts (token : Token) : Object :=
  match token.original.object? with
  | some entries => entries
  | none => (token.value.object?).getD []

/-- The default that a variant inherits: the one of its own mode, else the one without
a mode. -/
def defaultOf? (found : List (DefaultKey × Token)) (token : Token) : Option Token :=
  let group := (variantPath token).dropLast
  (Entries.get? found (group, token.mode)).or (Entries.get? found (group, none))

/-- The token with the parts that it lacks taken from its default. -/
def withDefault (found : List (DefaultKey × Token)) (token : Token) : Except Error Token := do
  let name ← variantName token
  if name = Token.defaultVariant then
    return token
  match defaultOf? found token with
  | none => return token
  | some default =>
    match default.value, token.value with
    | .object inherited, .object own =>
      return { token with
        value := .object (Entries.update inherited own)
        original := .object (Entries.update (authoredParts default) (authoredParts token)) }
    | _, _ => return token

/-- A part that is null or empty text is not written. -/
def isAbsent : Value → Bool
  | .null => true
  | .text s => s.isEmpty
  | _ => false

/-- One part of a style as a token of its own. -/
def partToken (token : Token) (part : String) (type : Option String) (value : Value) : Token :=
  { token with
    value
    original := (Entries.get? (authoredParts token) part).getD value
    type := type.or token.type }

/-- The parts of a style that are written, each as a token with its property. -/
def partTokens (token : Token) : List (String × Token) :=
  parts.filterMap fun (part, property, type) =>
    match (token.value.object?).bind fun entries => Entries.get? entries part with
    | some value =>
      if isAbsent value then none else some (property, partToken token part type value)
    | none => none

/-- The declarations of a style. -/
def declarations (token : Token) (dictionary : Dictionary) (options : RenderOptions) :
    Traced (List Declaration) :=
  (partTokens token).mapM fun (property, part) =>
    Declaration.mk property <$> options.value part dictionary

/-- A heading level: digits, possibly with a line feed behind them. -/
def isLevel (name : String) : Bool :=
  let chars := name.toList
  let digits := if chars.getLast? = some '\n' then chars.dropLast else chars
  !digits.isEmpty && digits.all Text.isDigit

/-- The heading element that a style also applies to. -/
def element? (token : Token) : Option String :=
  let path := variantPath token
  if path.contains "heading" then
    match path.getLast? with
    | some "display" => some "h1.display"
    | some name => if isLevel name then some ("h" ++ name) else none
    | none => none
  else
    none

end Typography

/-- The typography tokens among `tokens`: plain properties, then elements if they are
wanted, then classes. -/
def typographyItems (tokens : List Token) (dictionary : Dictionary) (options : RenderOptions)
    (elements : Bool) : Traced (List Item) := do
  let plain := tokens.filter Typography.isPlain
  let composites := tokens.filter Typography.isComposite
  let root ← options.declareOwn dictionary plain
  let properties := if plain.isEmpty then [] else [Item.block options.selector root []]
  if composites.isEmpty then
    return properties
  let found ← Typography.defaults dictionary.tokens
  let styles ← composites.mapM fun token => do
    let full ← Typography.withDefault found token
    let declarations ← Typography.declarations full dictionary options
    return (token, declarations)
  let elementBlocks := styles.filterMap fun (token, declarations) =>
    (Typography.element? token).map fun element => Item.block element declarations []
  let elementItems :=
    if elements ∧ elementBlocks ≠ [] then
      Item.comment "Semantic HTML elements" :: elementBlocks
    else
      []
  let classes := styles.map fun (token, declarations) =>
    Item.block ("." ++ Typography.className token) declarations []
  return properties ++ elementItems ++ Item.comment "Typography utility classes" :: classes

end DesignTokens.Stylesheet
