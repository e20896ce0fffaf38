import DesignTokens.Json.Writer
import DesignTokens.Stylesheet.Color
import DesignTokens.Text.Stretch

/-!
# Literal values

The text that a value without references has in a stylesheet: numbers, colors,
dimensions, shadows and font stacks in their own syntax, and everything for which
there is no syntax as JSON without quotes.
-/

namespace DesignTokens.Stylesheet

/-- JSON on one line with all quotes left out. -/
def structureText (v : Value) : String :=
  String.ofList ((Json.render .asciiLine v).toList.filter (· != '"'))

/-- The text of a structured color. An unknown space and an unreadable color are
reported, and the value is passed through. -/
def colorText (v : Value) : Traced String :=
  match v with
  | .object entries =>
    let space := (Entries.get? entries "colorSpace").getD .null
    match space.text?.bind (Entries.get? colorForms) with
    | none => do
      Traced.note (.unsupportedColorSpace space)
      return structureText v
    | some form =>
      match Color.ofObject entries with
      | .ok color => .ofExcept (color.write form)
      | .error reason => do
        Traced.note (.malformedColor v reason)
        return structureText v
  | _ => .fail (.shape .noMembers)

/-- The amount of a dimension with its unit. -/
def dimensionText (v : Value) : Except Error String :=
  match v with
  | .object entries =>
    match Entries.get? entries "value" with
    | none => .error (.shape (.missingMember "value"))
    | some amount =>
      match Entries.get? entries "unit" with
      | none => .error (.shape (.missingMember "unit"))
      | some unit => .ok (amount.numberText ++ unit.inline)
  | _ => .error (.shape .wrongKind)

/-- A family name; one that contains a space is quoted, unless it is already or is a
variable. -/
def familyName (name : String) : String :=
  if ' ' ∈ name.toList ∧ ¬ "'".isPrefixOf name ∧ ¬ "\"".isPrefixOf name ∧
      ¬ "var(".isPrefixOf name then
    "'" ++ name ++ "'"
  else
    name

def fontStack (names : List String) : String :=
  ", ".intercalate (names.map familyName)

def fontFamilyText : Value → String
  | .list items => fontStack (items.map Value.inline)
  | v => v.inline

/-- The parts of a shadow in the order in which they are written. -/
def shadowParts : List String := ["offsetX", "offsetY", "blur", "spread", "color"]

/-- A shadow from the texts of its parts. -/
def shadowOf (inset : Bool) (parts : List String) : String :=
  let text := " ".intercalate parts
  if inset then "inset " ++ text else text

def isInset (entries : Object) : Bool :=
  ((Entries.get? entries "inset").map Value.isSet).getD false

mutual

/-- The text of a value of a token with the given type. -/
def literalText (tokenType : Option String) : Value → Traced String
  | .null => pure ""
  | .text s => pure s
  | .bool flag => pure (Value.bool flag).numberText
  | .int n => pure (Value.int n).numberText
  | .float x => pure (Value.float x).numberText
  | .list items =>
    if tokenType = some "fontFamily" ∨ items.all Value.isText then
      pure (fontFamilyText (.list items))
    else do
      let texts ← literalItems tokenType items
      return ", ".intercalate texts
  | .object entries =>
    if (Value.object entries).isColor then
      colorText (.object entries)
    else if (Value.object entries).isDimension then
      .ofExcept (dimensionText (.object entries))
    else if (Value.object entries).isShadow then do
      let parts ← shadowParts.filterMapM fun key => literalMember key entries
      return shadowOf (isInset entries) parts
    else
      pure (structureText (.object entries))
termination_by structural v => v

def literalItems (tokenType : Option String) : List Value → Traced (List String)
  | [] => pure []
  | item :: rest => do
    let text ← literalText tokenType item
    let texts ← literalItems tokenType rest
    return text :: texts
termination_by structural items => items

/-- The text of the member of an object at `key`, if it is there. -/
def literalMember (key : String) : List (String × Value) → Traced (Option String)
  | [] => pure none
  | (name, value) :: rest =>
    if name == key then some <$> literalText none value else literalMember key rest
termination_by structural entries => entries

end

/-- The text of a value that is used as a shadow, whatever its kind. -/
def shadowText (v : Value) : Traced String :=
  match v with
  | .object entries => do
    let parts ← shadowParts.filterMapM fun key => literalMember key entries
    return shadowOf (isInset entries) parts
  | .text s =>
    if shadowParts.any fun part => Text.contains s part then
      .fail (.shape .wrongKind)
    else
      .fail (.shape .noMembers)
  | .list items =>
    if shadowParts.any fun part => items.any fun item => item.text? == some part then
      .fail (.shape .wrongKind)
    else
      .fail (.shape .noMembers)
  | _ => .fail (.shape .wrongKind)

end DesignTokens.Stylesheet
