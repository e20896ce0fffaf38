import DesignTokens.Dictionary
import DesignTokens.Tree.Keys

/-!
# Documents for design tools

A design tool reads tokens as a tree again: every token is a leaf with a type and a
value, placed at its path. A leaf keeps the authored value if that has references.
-/

namespace DesignTokens.Figma

open DesignTokens.Tree

/-- The authored value if it has references, else the resolved one. -/
def outputValue (token : Token) : Value :=
  if token.original.usesReferences then token.original else token.value

def leaf (keys : Keys) (type : Option String) (value : Value) : Value :=
  let typeValue := match type with
    | some name => Value.text name
    | none => Value.null
  .object (Entries.ofList [(keys.type, typeValue), (keys.value, value)])

/-- Objects with a value key. -/
def isLeaf (keys : Keys) (value : Value) : Bool :=
  value.hasMember keys.value

/-- The tree with a leaf at a path, groups being made where there are none. A path
cannot lead through something that is no object. -/
def place (leaf : Value) : TokenPath → Object → Except Error Object
  | [], _ => .error (.shape .noPath)
  | [name], group => .ok (Entries.insert group name leaf)
  | name :: rest, group =>
    match (Entries.get? group name).getD (.object []) with
    | .object inner => do
      let placed ← place leaf rest inner
      return Entries.insert group name (.object placed)
    | _ => .error (.shape (if rest.length = 1 then .wrongKind else .noMembers))

/-- The tree of all tokens, references kept. -/
def nested (keys : Keys) (tokens : List Token) : Except Error Object :=
  tokens.foldlM (fun tree token =>
    place (leaf keys token.type (outputValue token)) token.path tree) []

mutual

/-- A member of a group without the groups below it that hold no leaf, or nothing if
it is such a group itself. -/
def pruneMember (keys : Keys) : Value → Option Value
  | .object entries =>
    if Entries.contains entries keys.value then
      some (.object entries)
    else
      let kept := prune keys entries
      if kept.isEmpty then none else some (.object kept)
  | value => some value
termination_by structural value => value

/-- A group without the groups that hold no leaf. -/
def prune (keys : Keys) : List (String × Value) → Object
  | [] => []
  | (name, value) :: rest =>
    match pruneMember keys value with
    | some kept => (name, kept) :: prune keys rest
    | none => prune keys rest
termination_by structural entries => entries

end

end DesignTokens.Figma
