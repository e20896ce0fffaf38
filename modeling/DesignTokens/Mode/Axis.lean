import DesignTokens.Error
import DesignTokens.Token

/-!
# Mode axes

A token may hold under one mode only, such as a dark color scheme. An axis names the
modes that exclude one another and the one that holds without any condition. Which
mode a token is bound to is said by the token alone, never by its name.
-/

namespace DesignTokens

structure ModeAxis where
  name : String
  /-- The modes in order of precedence. -/
  values : List String
  default : String
  default_mem : default ∈ values
deriving Repr

namespace ModeAxis

/-- Light and dark, light being the default. -/
def color : ModeAxis := ⟨"color", ["light", "dark"], "light", by decide⟩

/-- The form of a list of names in a message. -/
def namesText (names : List String) : String :=
  match names with
  | [name] => "(" ++ Text.quoted name ++ ",)"
  | names => "(" ++ ", ".intercalate (names.map Text.quoted) ++ ")"

def ofNames (name : String) (values : List String) (default : String) :
    Except Schema.Report ModeAxis :=
  if hmem : default ∈ values then
    .ok ⟨name, values, default, hmem⟩
  else
    .error ⟨"ModeAxis", [⟨[], .rule ("Default mode '" ++ default ++ "' is not one of " ++
      namesText values)⟩]⟩

/-- An axis whose fields are given unchecked. -/
def ofFields (fields : Schema.Fields) : Except Schema.Report ModeAxis := do
  let (name, values, default) ← ((fun name values default => (name, values, default)) <$>
    Schema.required fields "name" Schema.text <*>
    Schema.required fields "values" (Schema.sequence Schema.text) <*>
    Schema.required fields "default" Schema.text).toExcept "ModeAxis"
  ofNames name values default

/-- The tokens that are bound to one mode of the axis. -/
def bucket (axis : ModeAxis) (tokens : List Token) (mode : String) : List Token :=
  if mode ∈ axis.values then tokens.filter fun token => token.mode == some mode else []

/-- The tokens that hold under every mode of the axis: those bound to no mode, or to a
mode of another axis. -/
def unmoded (axis : ModeAxis) (tokens : List Token) : List Token :=
  tokens.filter fun token => !token.mode.any fun mode => axis.values.contains mode

/-- The first mode that is not the default. -/
def second? (axis : ModeAxis) : Option String :=
  axis.values.find? fun mode => mode != axis.default

end ModeAxis

end DesignTokens
