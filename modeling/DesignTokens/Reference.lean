import DesignTokens.Name
import DesignTokens.Text.Blank
import DesignTokens.Value.Basic

/-!
# References inside values

A reference is a placeholder such as `{group.token}`: an opening brace, at least one
character that is no brace, and a closing brace. It may be the whole of a text, up
to blanks, or stand inside a longer one, and texts may sit anywhere in a value. Text
is cut into its pieces once; reading, resolving and rendering references all go over
those pieces.
-/

namespace DesignTokens

/-- A stretch of text as it was authored: plain characters, or what stands between
the braces of one reference. -/
inductive Piece where
  | plain (chars : List Char)
  | reference (inner : List Char)
deriving DecidableEq, Repr

namespace Piece

/-- The authored characters of a piece. -/
def source : Piece → List Char
  | .plain chars => chars
  | .reference inner => '\x7b' :: inner ++ ['\x7d']

/-- The dotted path that a reference names. -/
def target? : Piece → Option String
  | .plain _ => none
  | .reference inner => some (String.ofList (Text.trimWhere Text.isBlank inner))

/-- The pieces of text that follow an opening brace, if `pending` holds the
characters since that brace, last first. -/
def scan : Option (List Char) → List Char → List Piece
  | none, [] => []
  | some pending, [] => [.plain ('\x7b' :: pending.reverse)]
  | none, c :: rest =>
    if c = '\x7b' then scan (some []) rest else .plain [c] :: scan none rest
  | some pending, c :: rest =>
    if c = '\x7b' then
      .plain ('\x7b' :: pending.reverse) :: scan (some []) rest
    else if c = '\x7d' then
      if pending.isEmpty then
        .plain ['\x7b', '\x7d'] :: scan none rest
      else
        .reference pending.reverse :: scan none rest
    else
      scan (some (c :: pending)) rest

/-- The pieces of a text, in order. -/
def ofText (text : String) : List Piece :=
  scan none text.toList

theorem source_scan (pending : Option (List Char)) (chars : List Char) :
    (scan pending chars).flatMap source =
      (pending.elim [] fun held => '\x7b' :: held.reverse) ++ chars := by
  induction chars generalizing pending with
  | nil => cases pending <;> simp [scan, source]
  | cons c rest ih =>
      cases pending with
      | none =>
          by_cases hopen : c = '\x7b'
          · simp [scan, hopen, ih]
          · simp [scan, hopen, ih, source]
      | some held =>
          by_cases hopen : c = '\x7b'
          · simp [scan, hopen, ih, source]
          · by_cases hclose : c = '\x7d'
            · cases held with
              | nil => simp [scan, hclose, ih, source]
              | cons h t => simp [scan, hclose, ih, source]
            · simp [scan, hopen, hclose, ih]

/-- Cutting a text into pieces loses nothing. -/
theorem source_ofText (text : String) : (ofText text).flatMap source = text.toList := by
  simp [ofText, source_scan]

end Piece

namespace Reference

/-- The target of a text that is exactly one reference, up to blanks around it. -/
def alias? (text : String) : Option String :=
  match Piece.ofText (Text.trim text) with
  | [.reference inner] => Piece.target? (.reference inner)
  | _ => none

/-- The targets of all references in a text, from left to right. -/
def targets (text : String) : List String :=
  (Piece.ofText text).filterMap Piece.target?

/-- The token path that a dotted reference names. -/
def path (reference : String) : TokenPath :=
  Text.fields '.' reference

end Reference

namespace Value

/-- The target of a value that is exactly one reference. -/
def alias? : Value → Option String
  | .text s => Reference.alias? s
  | _ => none

mutual

/-- The targets of all references in a value, in structural order. -/
def references : Value → List String
  | .text s => Reference.targets s
  | .list items => itemReferences items
  | .object entries => entryReferences entries
  | _ => []
termination_by structural v => v

def itemReferences : List Value → List String
  | [] => []
  | item :: rest => item.references ++ itemReferences rest
termination_by structural items => items

def entryReferences : List (String × Value) → List String
  | [] => []
  | (_, value) :: rest => value.references ++ entryReferences rest
termination_by structural entries => entries

end

def usesReferences (v : Value) : Bool :=
  !v.references.isEmpty

end Value

end DesignTokens
