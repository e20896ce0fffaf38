import DesignTokens.Entries
import DesignTokens.Tree.Keys

/-!
# Handing group properties down

A type or extensions given for a group hold for every token below it. Both are
written onto the tokens themselves: the nearest type wins, and extensions are
combined key by key, an inner entry winning over an outer one. A group loses its
extensions when they have been handed down. Nothing is handed past a token.
-/

namespace DesignTokens.Tree

/-- The type that holds below an object, if `inherited` holds around it. -/
def typeBelow (keys : Keys) (entries : Object) (inherited : Value) : Value :=
  (Entries.get? entries keys.type).getD inherited

/-- The extensions that hold below an object, if `inherited` hold around it. -/
def extensionsBelow (keys : Keys) (entries inherited : Object) : Object :=
  match Entries.get? entries keys.extensions with
  | some (.object own) => Entries.update inherited own
  | _ => inherited

/-- The entries of a token with the type and the extensions that hold for it. -/
def settle (keys : Keys) (entries : Object) (type : Value) (extensions : Object) : Object :=
  let typed := match type with
    | .null => entries
    | type => Entries.insert entries keys.type type
  if extensions.isEmpty then typed
  else Entries.insert typed keys.extensions (.object extensions)

mutual

/-- A member of a group after the group's type and extensions were handed to it. -/
def delegateMember (keys : Keys) (type : Value) (extensions : Object) : Value → Value
  | .object entries =>
    let ownType := typeBelow keys entries type
    let ownExtensions := extensionsBelow keys entries extensions
    if Entries.contains entries keys.value then
      .object (settle keys entries ownType ownExtensions)
    else
      .object (delegateMembers keys ownType ownExtensions entries)
  | value => value
termination_by structural value => value

/-- The entries of a group after its type and extensions were handed to them. -/
def delegateMembers (keys : Keys) (type : Value) (extensions : Object) :
    List (String × Value) → Object
  | [] => []
  | (name, value) :: rest =>
    let others := delegateMembers keys type extensions rest
    if name = keys.extensions ∧ value.isObject then
      others
    else if isReserved name then
      (name, value) :: others
    else
      (name, delegateMember keys type extensions value) :: others
termination_by structural entries => entries

end

/-- A whole tree with all group properties handed down. -/
def delegate (keys : Keys) (tree : Object) : Object :=
  let type := typeBelow keys tree .null
  let extensions := extensionsBelow keys tree []
  if Entries.contains tree keys.value then
    settle keys tree type extensions
  else
    delegateMembers keys type extensions tree

end DesignTokens.Tree
