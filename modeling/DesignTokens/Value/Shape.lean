import DesignTokens.Entries
import DesignTokens.Value.Data

/-!
# Shapes of composite values

Colors, dimensions and shadows are told by the members of an object.
-/

namespace DesignTokens.Value

def member? (v : Value) (key : String) : Option Value :=
  v.object?.bind fun entries => Entries.get? entries key

def hasMember (v : Value) (key : String) : Bool :=
  (v.member? key).isSome

/-- Objects with a color space and components. -/
def isColor (v : Value) : Bool :=
  v.hasMember "colorSpace" && v.hasMember "components"

/-- Objects with a value and a unit and nothing else. -/
def isDimension (v : Value) : Bool :=
  v.hasMember "value" && v.hasMember "unit" &&
    (v.object?.getD []).all fun (key, _) => key == "value" || key == "unit"

/-- Objects with both offsets and a color. -/
def isShadow (v : Value) : Bool :=
  v.hasMember "offsetX" && v.hasMember "offsetY" && v.hasMember "color"

/-- Numbers as stylesheets have them: whole doubles without a fraction, flags as
words. -/
def numberText : Value → String
  | .bool flag => if flag then "true" else "false"
  | .float x =>
    match Decimal.Dyadic.ofFloat? x with
    | some d => if d.isWhole then toString d.truncate else Decimal.writeFloat .inline x
    | none => Decimal.writeFloat .inline x
  | v => v.inline

/-- The text of a value where a reference to it stands inside longer text. -/
def embedded (v : Value) : String :=
  match v.member? "value", v.member? "unit" with
  | some amount, some unit =>
    if v.isDimension then amount.inline ++ unit.inline else v.inline
  | _, _ => v.inline

end DesignTokens.Value
