import DesignTokens.Reference
import DesignTokens.Token
import DesignTokens.Tree.Authored

/-!
# Resolution of references

The value of a token is its authored value with every reference replaced: a text
that is exactly one reference becomes the value of the token it names, and a
reference inside longer text becomes the text of that value. A token that is found
while it is still being resolved refers to itself, which is an error.
-/

namespace DesignTokens

namespace Value

variable {m : Type → Type} [Monad m]

/-- The pieces of a text, joined after each reference was replaced by the text of its
value. -/
def substitutePieces (valueOf : String → m Value) : List Piece → m (List Char)
  | [] => pure []
  | piece :: rest => do
    let chars ← match piece.target? with
      | none => pure piece.source
      | some target => (·.embedded.toList) <$> valueOf target
    let others ← substitutePieces valueOf rest
    return chars ++ others

def substituteText (valueOf : String → m Value) (text : String) : m Value :=
  match Reference.alias? text with
  | some target => valueOf target
  | none => do
    let chars ← substitutePieces valueOf (Piece.ofText text)
    return .text (String.ofList chars)

mutual

/-- A value with all its references replaced, from left to right at every depth. -/
def substitute (valueOf : String → m Value) : Value → m Value
  | .text s => substituteText valueOf s
  | .list items => .list <$> substituteItems valueOf items
  | .object entries => .object <$> substituteEntries valueOf entries
  | value => pure value
termination_by structural value => value

def substituteItems (valueOf : String → m Value) : List Value → m (List Value)
  | [] => pure []
  | item :: rest => do
    let first ← substitute valueOf item
    let others ← substituteItems valueOf rest
    return first :: others
termination_by structural items => items

def substituteEntries (valueOf : String → m Value) : List (String × Value) → m Object
  | [] => pure []
  | (key, value) :: rest => do
    let first ← substitute valueOf value
    let others ← substituteEntries valueOf rest
    return (key, first) :: others
termination_by structural entries => entries

end

end Value

namespace Resolution

/-- The values of the tokens that are resolved so far. -/
abbrev Known := List (TokenPath × Value)

/-- One entry per path, in order of the first occurrence, with the data of the last
one. -/
def distinct (tokens : List Authored) : List Authored :=
  Entries.values (Entries.ofList (tokens.map fun token => (token.path, token)))

def find? (tokens : List Authored) (path : TokenPath) : Option Authored :=
  tokens.find? fun token => token.path == path

/-- The error for a reference that names no token. -/
def missing (owner : Authored) (reference : String) : Error :=
  .problem (.missingReference reference (some owner.path))
    (owner.source.map fun file => { file := some file })

/-- The value of a token, where `open_` holds the dotted paths of the tokens that are
being resolved, outermost first. Each step opens one more token, so `fuel` need not
exceed the number of tokens. -/
def valueOf (tokens : List Authored) :
    Nat → List String → Authored → StateT Known (Except Error) Value
  | 0, open_, token => throw (.problem (.cycle (open_ ++ [token.path.dotted])) none)
  | fuel + 1, open_, token => do
    match Entries.get? (← get) token.path with
    | some value => return value
    | none =>
      let dotted := token.path.dotted
      if dotted ∈ open_ then
        throw (.problem (.cycle (open_ ++ [dotted])) none)
      let value ← token.value.substitute fun reference =>
        match find? tokens (Reference.path reference) with
        | some target => valueOf tokens fuel (open_ ++ [dotted]) target
        | none => throw (missing token reference)
      modify fun known => Entries.insert known token.path value
      return value

/-- The checked token of an authored one, given its resolved value. -/
def finish (lead : Option String) (token : Authored) (value : Value) : Except Error Token :=
  let mode := (Entries.get? token.extensions (Scalar.text "mode")).bind Value.text?
  let checked := (fun type description extensions =>
      ({ path := token.path, name := Name.ofPath token.path lead, type, value
         original := token.value, mode, description, extensions
         source := token.source } : Token)) <$>
    Token.checkText "type" token.type <*>
    Token.checkText "description" token.description <*>
    (Token.checkExtensions token.extensions).within (.field "extensions")
  (checked.toExcept "Token").mapError .report

/-- The tokens in turn, each resolved and then checked. -/
def resolveEach (lead : Option String) (all : List Authored) :
    List Authored → StateT Known (Except Error) (List Token)
  | [] => pure []
  | token :: rest => do
    let value ← valueOf all (all.length + 1) [] token
    let first ← finish lead token value
    let others ← resolveEach lead all rest
    return first :: others

/-- The resolved tokens, one for each path. -/
def resolve (tokens : List Authored) (lead : Option String) : Except Error (List Token) :=
  let tokens := distinct tokens
  (resolveEach lead tokens tokens).run' []

end Resolution

end DesignTokens
