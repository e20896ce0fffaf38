import DesignTokens.Figma.Document

/-!
# Text styles for design tools

The tree of tokens in the shape that a design tool has for text styles. Dimensions
and parts that the tool does not know are left out, font types have names of their
own, variants inherit from the default of their group, and the default of every text
style is combined with every modifier that stands beside the styles.
-/

namespace DesignTokens.Figma

open DesignTokens.Tree

/-- Parts of a style that the tool does not know. -/
def unknownParts : List String := ["figureStyle", "fontPosition"]

/-- Tokens with one of these names in their path are left out. -/
def excludedNames : List String :=
  ["figureStyle", "fontPosition", "fontStyle", "textDecoration", "letterCase"]

def decorations : List (String × String) :=
  [("underline solid", "underline"), ("line-through", "strike-through")]

def weightNames : List (String × String) :=
  [("100", "Thin"), ("200", "Extra Light"), ("300", "Light"), ("400", "Regular"),
    ("500", "Medium"), ("600", "Semibold"), ("700", "Bold"), ("800", "Extra Bold"),
    ("900", "Black"), ("950", "Extra Black"), ("thin", "Thin"), ("extraLight", "Extra Light"),
    ("light", "Light"), ("regular", "Regular"), ("medium", "Medium"), ("semiBold", "Semibold"),
    ("bold", "Bold"), ("extraBold", "Extra Bold"), ("black", "Black")]

/-- A decoration under the tool's name for it. -/
def decoration : Value → Value
  | .text s => .text ((Entries.get? decorations s).getD s)
  | value => value

/-- The value of the token that an alias names, if that token is there. -/
def literal (dictionary : Dictionary) (value : Value) : Value :=
  match value.alias? with
  | some target =>
    match dictionary.get? (Reference.path target) with
    | some token => token.value
    | none => value
  | none => value

/-- The letter case under the tool's name for it. -/
def renameCase (dictionary : Dictionary) (parts : Object) : Object :=
  match Entries.get? parts "letterCase" with
  | some value =>
    Entries.insert (Entries.erase parts "letterCase") "textCase" (literal dictionary value)
  | none => parts

/-- The decoration with the tool's name for its value. -/
def renameDecoration (dictionary : Dictionary) (parts : Object) : Object :=
  match Entries.get? parts "textDecoration" with
  | some value => Entries.insert parts "textDecoration" (decoration (literal dictionary value))
  | none => parts

/-- The parts of a style as the tool knows them. -/
def compatible (dictionary : Dictionary) (parts : Object) : Object :=
  renameDecoration dictionary
    (renameCase dictionary (parts.filter fun (name, _) => !unknownParts.contains name))

/-- The name of a font weight; flags and aliases are kept. -/
def weightName (value : Value) : Value :=
  match value with
  | .bool flag => .bool flag
  | value =>
    if value.alias?.isSome then value
    else .text ((Entries.get? weightNames value.inline).getD value.inline)

/-- The value of a style with the parts that it lacks taken from its default. -/
def variantValue (dictionary : Dictionary) (token : Token) : Value :=
  match outputValue token with
  | .object own =>
    if token.isDefaultVariant ∨ token.path.length < 2 then
      .object own
    else
      match (dictionary.get? (token.groupPath ++ [Token.defaultVariant])).map outputValue with
      | some (.object inherited) => .object (Entries.update inherited own)
      | _ => .object own
  | value => value

/-- The first family of a font stack. -/
def firstFamily : Value → Value
  | .list [] => .text ""
  | .list (first :: _) => first
  | value => value

def weightGroup : TokenPath := ["typography", "weight"]

def textGroup : TokenPath := ["typography", "text"]

/-- The leaf of a token, if the token is exported at all. -/
def entry? (keys : Keys) (dictionary : Dictionary) (token : Token) : Option Value :=
  let value := outputValue token
  if token.type = some "dimension" then
    none
  else if token.path.any excludedNames.contains then
    none
  else if token.type = some "fontFamily" then
    some (leaf keys (some "fontFamilies") (firstFamily value))
  else if token.type = some "fontWeight" then
    some (leaf keys (some "fontWeights")
      (if token.path.take 2 = weightGroup then weightName value else value))
  else if token.type = some "typography" then
    match variantValue dictionary token with
    | .object parts =>
      let converted := compatible dictionary parts
      if converted.isEmpty then none else some (leaf keys token.type (.object converted))
    | value => some (leaf keys token.type value)
  else
    some (leaf keys token.type (decoration value))

/-- The group below a group that is itself at the top of a tree. -/
def innerGroup? (tree : Object) (outer inner : String) : Option Object :=
  ((Entries.get? tree outer).bind fun value => value.member? inner).bind Value.object?

/-- Puts an italic weight beside every weight. -/
def italicWeights (keys : Keys) (weights : Object) : Object :=
  weights.foldl (fun found (name, weight) =>
    match weight.member? keys.value with
    | some value =>
      Entries.insert found (name ++ "Italic")
        (leaf keys (some "fontWeights") (.text (value.inline ++ " Italic")))
    | none => found) weights

/-- The start of an alias of a weight. -/
def weightAliasStart : String := "\x7b" ++ weightGroup.dotted ++ "."

/-- An alias of a weight as the alias of its italic weight. -/
def italicAlias (value : Value) : Value :=
  match value with
  | .text s =>
    if weightAliasStart.isPrefixOf s ∧ s.toList.getLast? = some '\x7d' then
      .text (String.ofList s.toList.dropLast ++ "Italic\x7d")
    else
      value
  | value => value

/-- A style made italic: by its weight, not by a part of its own. -/
def italicStyle (base : Object) : Object :=
  let weighted := match Entries.get? base "fontWeight" with
    | some value => Entries.insert base "fontWeight" (italicAlias value)
    | none => base
  Entries.erase weighted "fontStyle"

/-- A style with a modifier laid over it. -/
def modify (base : Object) (name : String) (modifier : Object) : Object :=
  if name = "italic" ∧ Entries.contains modifier "fontStyle" then italicStyle base
  else Entries.update base modifier

/-- Modifiers are leaves beside the styles with at most three parts. -/
def modifiers (keys : Keys) (text : Object) : List (String × Object) :=
  text.filterMap fun (name, node) =>
    match node.member? keys.value with
    | some (.object parts) => if parts.length ≤ 3 then some (name, parts) else none
    | _ => none

/-- A style group with its default combined with every modifier. -/
def combine (keys : Keys) (found : List (String × Object)) (group : Object) (default : Value) :
    Except Error Object :=
  match default with
  | .object entries =>
    match Entries.get? entries keys.value with
    | some (.object base) =>
      .ok (Entries.update group (found.map fun (name, modifier) =>
        (name, leaf keys (some "typography") (.object (modify base name modifier)))))
    | _ => .ok group
  | _ => .error (.shape .noMembers)

/-- The style groups that have a default, each combined with every modifier. -/
def combinations (keys : Keys) (text : Object) : Except Error Object := do
  let found := modifiers keys text
  let groups ← text.filterMapM fun (name, node) =>
    match node with
    | .object group =>
      if Entries.contains group keys.value then
        return none
      else
        match Entries.get? group Token.defaultVariant with
        | some default => do
          let combined ← combine keys found group default
          return some (name, Value.object combined)
        | none => return none
    | _ => return none
  return groups

/-- The tree with the group at a name inside the group `outer` replaced. -/
def replaceInner (tree : Object) (outer inner : String) (group : Object) : Object :=
  match Entries.get? tree outer with
  | some (.object entries) =>
    Entries.insert tree outer (.object (Entries.insert entries inner (.object group)))
  | _ => tree

def withItalicWeights (keys : Keys) (tree : Object) : Object :=
  match innerGroup? tree "typography" "weight" with
  | some weights => replaceInner tree "typography" "weight" (italicWeights keys weights)
  | none => tree

def withCombinations (keys : Keys) (tree : Object) : Except Error Object :=
  match innerGroup? tree "typography" "text" with
  | some text => replaceInner tree "typography" "text" <$> combinations keys text
  | none => .ok tree

/-- The leaves of all exported tokens. -/
def entries (keys : Keys) (dictionary : Dictionary) (tokens : List Token) :
    Except Error Object :=
  tokens.foldlM (fun tree token =>
    match entry? keys dictionary token with
    | some leaf => place leaf token.path tree
    | none => .ok tree) []

/-- The tree of text styles. -/
def textStyles (keys : Keys) (dictionary : Dictionary) (tokens : List Token) :
    Except Error Object := do
  let placed ← entries keys dictionary tokens
  let combined ← withCombinations keys (withItalicWeights keys placed)
  return prune keys combined

end DesignTokens.Figma
