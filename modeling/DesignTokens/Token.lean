import DesignTokens.Entries
import DesignTokens.Name
import DesignTokens.Schema
import DesignTokens.Value.Shape

/-!
# Tokens

A token is one named value of a token tree. It keeps both the value as authored and
the value with all references replaced.
-/

namespace DesignTokens

structure Token where
  path : TokenPath
  /-- The flat property name. -/
  name : String
  type : Option String
  value : Value
  /-- The value before references were replaced. -/
  original : Value
  /-- The mode under which the token holds, if it is bound to one. -/
  mode : Option String
  description : Option String
  extensions : Object
  /-- The file from which the token was read. -/
  source : Option String
deriving Repr

namespace Token

/-- The last name of a variant that stands for its whole group. -/
def defaultVariant : String := "default"

def isDefaultVariant (token : Token) : Bool :=
  token.path.getLast? == some defaultVariant

/-- The path of the group that holds the token. -/
def groupPath (token : Token) : TokenPath :=
  token.path.dropLast

/-- Extensions with text keys. -/
def checkExtensions (found : List (Scalar × Value)) : Schema.Checked Object :=
  .all (found.map fun (key, value) =>
    .mapValid (fun name => (name, value))
      (((Schema.text (.scalar key)).within (.field "[key]")).within (Schema.keyPlace key)))

/-- An optional text at a named field. -/
def checkText (name : String) (value : Value) : Schema.Checked (Option String) :=
  (Schema.textOrNull value.toData).within (.field name)

/-- A token whose fields are each given unchecked, in a fixed order. -/
def ofFields (fields : Object) : Except Schema.Report Token :=
  let plain : Schema.Fields := fields.map fun (name, value) => (name, value.toData)
  let checkedText (name : String) := checkText name ((Entries.get? fields name).getD .null)
  let extensions : Schema.Checked Object := match Entries.get? fields "extensions" with
    | none => .valid []
    | some (.object entries) => .valid entries
    | some _ => .fail .notMapping
  let checked := (fun path name type mode description extensions source =>
      ({ path, name, type, mode, description, extensions, source
         value := (Entries.get? fields "value").getD .null
         original := (Entries.get? fields "original_value").getD .null } : Token)) <$>
    Schema.required plain "path" (Schema.sequence Schema.text) <*>
    Schema.required plain "name" Schema.text <*>
    checkedText "type" <*>
    checkedText "mode" <*>
    checkedText "description" <*>
    extensions.within (.field "extensions") <*>
    checkedText "source"
  checked.toExcept "Token"

end Token

end DesignTokens
