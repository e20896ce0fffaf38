import DesignTokens.Entries
import DesignTokens.Error
import DesignTokens.Tree.Keys
import DesignTokens.Value.Data

/-!
# Authored tokens

The tokens of a tree in document order, as they were written: the value still has
its references, and type and description are not yet checked.
-/

namespace DesignTokens

structure Authored where
  path : TokenPath
  type : Value
  value : Value
  extensions : List (Scalar × Value)
  description : Value
  source : Option String
deriving Repr

namespace Tree

/-- The two parts of a pair: a list, an object's keys or a text of length two. -/
def pairOf : Value → Except Error (Value × Value)
  | .list [key, value] => .ok (key, value)
  | .object [(key, _), (value, _)] => .ok (.text key, .text value)
  | .text s =>
    match s.toList with
    | [key, value] => .ok (.text (String.singleton key), .text (String.singleton value))
    | _ => .error (.shape .notPairs)
  | .list _ => .error (.shape .notPairs)
  | .object _ => .error (.shape .notPairs)
  | _ => .error (.shape .wrongKind)

/-- Extensions are an object or a list of pairs; a value that is not set stands for
no extensions. -/
def extensionsOf (v : Value) : Except Error (List (Scalar × Value)) :=
  if v.isSet then
    match v with
    | .object entries => .ok (entries.map fun (key, value) => (.text key, value))
    | .list items =>
      items.foldlM (fun found item => do
        let (key, value) ← pairOf item
        match key.toData with
        | .scalar key => return Entries.insert found key value
        | _ => throw (.shape .wrongKind)) []
    | .text _ => .error (.shape .notPairs)
    | _ => .error (.shape .wrongKind)
  else
    .ok []

/-- The token that an object with a value key stands for. -/
def authoredToken (keys : Keys) (path : TokenPath) (entries : Object) (value : Value) :
    Except Error Authored := do
  let extensions ← extensionsOf ((Entries.get? entries keys.extensions).getD .null)
  return {
    path, value, extensions
    type := (Entries.get? entries keys.type).getD .null
    description := (Entries.get? entries keys.description).getD .null
    source := none }

mutual

/-- The tokens at and below a member of a group. -/
def authoredMember (keys : Keys) (path : TokenPath) : Value → Except Error (List Authored)
  | .object entries =>
    match Entries.get? entries keys.value with
    | some value => (fun token => [token]) <$> authoredToken keys path entries value
    | none => authored keys path entries
  | _ => .ok []
termination_by structural value => value

/-- The tokens below a group that lies at `path`, in document order. -/
def authored (keys : Keys) (path : TokenPath) :
    List (String × Value) → Except Error (List Authored)
  | [] => .ok []
  | (name, value) :: rest =>
    if isReserved name then
      authored keys path rest
    else do
      let first ← authoredMember keys (path ++ [name]) value
      let others ← authored keys path rest
      return first ++ others
termination_by structural entries => entries

end

end Tree

end DesignTokens
