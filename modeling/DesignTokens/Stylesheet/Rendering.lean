import DesignTokens.Dictionary
import DesignTokens.Stylesheet.Document
import DesignTokens.Stylesheet.Literal

/-!
# Values with references

A value is written either as the literal text of its resolved value or with its
references kept as calls of the properties they name. In the second case the
authored and the resolved value are walked side by side and every reference is
written at its own place, so two references in one value never meet.
-/

namespace DesignTokens.Stylesheet

/-- What a policy may look at beside the token. -/
structure ReferenceContext where
  dictionary : Dictionary
  dtcg : Bool

/-- Whether references are kept in the values of a token. -/
inductive ReferencePolicy where
  | always (keep : Bool)
  | when (decide : Token → ReferenceContext → Except Error Bool)

structure RenderOptions where
  selector : String := ":root"
  /-- A word in front of every property name. -/
  lead : Option String := none
  policy : ReferencePolicy := .always true
  dtcg : Bool := true
  /-- The form of a kept reference, with a placeholder for the property name. -/
  referenceFormat : String := "var(--\x7bname\x7d)"

namespace RenderOptions

def placeholder : String := "\x7bname\x7d"

/-- A kept reference to a property. -/
def call (options : RenderOptions) (name : String) : String :=
  String.ofList
    (Text.replaceAll placeholder.toList name.toList options.referenceFormat.toList)

/-- The call of the property that a reference names. -/
def reference (options : RenderOptions) (dictionary : Dictionary) (owner : TokenPath)
    (target : String) : Except Error String :=
  (fun token => options.call token.name) <$> dictionary.lookup target (some owner)

/-- The pieces of a text, each reference written as a call. -/
def keptPieces (options : RenderOptions) (dictionary : Dictionary) (owner : TokenPath) :
    List Piece → Except Error (List Char)
  | [] => .ok []
  | piece :: rest => do
    let chars ← match piece.target? with
      | none => pure piece.source
      | some target => String.toList <$> options.reference dictionary owner target
    let others ← keptPieces options dictionary owner rest
    return chars ++ others

/-- Authored text with its references written as calls. -/
def keptText (options : RenderOptions) (dictionary : Dictionary) (owner : TokenPath)
    (text : String) : Except Error String :=
  match Reference.alias? text with
  | some target => options.reference dictionary owner target
  | none => String.ofList <$> options.keptPieces dictionary owner (Piece.ofText text)

/-- An object from the texts of its members: a shadow in its own form, anything else
in braces. -/
def memberTexts (resolved : Object) (texts : List (String × String)) : String :=
  if (Value.object resolved).isShadow then
    shadowOf (isInset resolved) (shadowParts.filterMap fun part => Entries.get? texts part)
  else
    "\x7b" ++ ",".intercalate (texts.map fun (key, text) => key ++ ":" ++ text) ++ "\x7d"

/-- A list from the texts of its items. -/
def itemTexts (type : Option String) (texts : List String) : String :=
  if type = some "fontFamily" then fontStack texts else ", ".intercalate texts

mutual

/-- The text of a resolved value in which the references of the authored value are
kept. Where the two differ in shape the literal text stands. -/
def kept (options : RenderOptions) (dictionary : Dictionary) (token : Token)
    (original : Value) (resolved : Value) : Traced String :=
  if original.usesReferences then
    match original, resolved with
    | .text s, _ => .ofExcept (options.keptText dictionary token.path s)
    | .object authored, .object entries => do
      let texts ← keptEntries options dictionary token authored entries
      return memberTexts entries texts
    | .list authored, .list items =>
      if authored.length = items.length then do
        let texts ← keptItems options dictionary token authored items
        return itemTexts token.type texts
      else
        literalText token.type (.list items)
    | _, value => literalText token.type value
  else
    literalText token.type resolved
termination_by structural resolved

def keptEntries (options : RenderOptions) (dictionary : Dictionary) (token : Token)
    (authored : Object) : List (String × Value) → Traced (List (String × String))
  | [] => pure []
  | (key, value) :: rest => do
    let original := (Entries.get? authored key).getD value
    let text ← kept options dictionary token original value
    let texts ← keptEntries options dictionary token authored rest
    return (key, text) :: texts
termination_by structural entries => entries

def keptItems (options : RenderOptions) (dictionary : Dictionary) (token : Token) :
    List Value → List Value → Traced (List String)
  | original :: originals, item :: items => do
    let text ← kept options dictionary token original item
    let texts ← keptItems options dictionary token originals items
    return text :: texts
  | _, _ => pure []
termination_by structural _ items => items

end

/-- The token has references and the policy wants them kept. -/
def keeps (options : RenderOptions) (token : Token) (dictionary : Dictionary) :
    Except Error Bool :=
  if token.original.usesReferences then
    match options.policy with
    | .always keep => .ok keep
    | .when decide => decide token ⟨dictionary, options.dtcg⟩
  else
    .ok false

/-- The text of a token's value. -/
def value (options : RenderOptions) (token : Token) (dictionary : Dictionary) :
    Traced String := do
  if ← options.keeps token dictionary then
    options.kept dictionary token token.original token.value
  else
    literalText token.type token.value

/-- The declaration of a token's value under a property name. -/
def declare (options : RenderOptions) (dictionary : Dictionary) (name : String)
    (token : Token) : Traced Declaration :=
  Declaration.custom name <$> options.value token dictionary

/-- Declarations of tokens under given names, in order. -/
def declareAll (options : RenderOptions) (dictionary : Dictionary)
    (named : List (String × Token)) : Traced (List Declaration) :=
  named.mapM fun (name, token) => options.declare dictionary name token

/-- Declarations of tokens under their own names. -/
def declareOwn (options : RenderOptions) (dictionary : Dictionary) (tokens : List Token) :
    Traced (List Declaration) :=
  options.declareAll dictionary (tokens.map fun token => (token.name, token))

end RenderOptions

end DesignTokens.Stylesheet
