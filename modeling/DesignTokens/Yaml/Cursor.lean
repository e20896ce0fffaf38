import DesignTokens.Error

/-!
# Places in a YAML text

YAML reads structure from lines and columns. A cursor is a place in the text: what
follows, and the line, the column and the number of characters before it.
-/

namespace DesignTokens.Yaml

inductive Fault where
  /-- The text is not YAML, or holds something that plain data cannot express. -/
  | malformed
  /-- A scalar does not have the form of its tag. -/
  | scalar (found : ShapeFault)
deriving DecidableEq, Repr

def isBreak (c : Char) : Bool :=
  c = '\n' || c = '\x85' || c = '\u2028' || c = '\u2029'

def isSpace (c : Char) : Bool :=
  c = ' ' || c = '\t'

/-- The end of a line or of the text. -/
def endsLine (next : Option Char) : Bool :=
  next.all isBreak

/-- A space, the end of a line or the end of the text. -/
def endsWord (next : Option Char) : Bool :=
  next.all fun c => c = ' ' || isBreak c

/-- A space, a tab, the end of a line or the end of the text. -/
def separates (next : Option Char) : Bool :=
  next.all fun c => isSpace c || isBreak c

def isNameChar (c : Char) : Bool :=
  c.isAlphanum || c = '-' || c = '_'

structure Cursor where
  rest : List Char
  index : Nat
  line : Nat
  column : Nat

namespace Cursor

def start (chars : List Char) : Cursor := ⟨chars, 0, 0, 0⟩

def peek (place : Cursor) (ahead : Nat) : Option Char :=
  place.rest[ahead]?

/-- One character further. A byte order mark takes no column. -/
def step (place : Cursor) : Cursor :=
  match place.rest with
  | [] => place
  | c :: rest =>
    if isBreak c then ⟨rest, place.index + 1, place.line + 1, 0⟩
    else ⟨rest, place.index + 1, place.line,
      if c = '\ufeff' then place.column else place.column + 1⟩

def advance (place : Cursor) : Nat → Cursor
  | 0 => place
  | count + 1 => place.step.advance count

/-- The characters ahead that satisfy `keep`. -/
def ahead (place : Cursor) (keep : Char → Bool) : List Char :=
  place.rest.takeWhile keep

/-- The place behind the characters that satisfy `keep`. -/
def skip (place : Cursor) (keep : Char → Bool) : Cursor :=
  place.advance (place.ahead keep).length

def skipSpaces (place : Cursor) : Cursor :=
  place.skip (· = ' ')

/-- The place behind a comment, if one begins here. -/
def skipComment (place : Cursor) : Cursor :=
  if place.peek 0 = some '#' then place.skip fun c => !isBreak c else place

/-- The line break that begins here, as it counts in text, and the place behind it. -/
def lineBreak (place : Cursor) : List Char × Cursor :=
  match place.rest with
  | [] => ([], place)
  | c :: _ =>
    if c = '\n' || c = '\x85' then (['\n'], place.step)
    else if isBreak c then ([c], place.step)
    else ([], place)

/-- Three marks that begin or end a document. -/
def atMarker (place : Cursor) (mark : Char) : Bool :=
  place.rest.take 3 == [mark, mark, mark] && separates (place.peek 3)

def atAnyMarker (place : Cursor) : Bool :=
  place.atMarker '-' || place.atMarker '.'

/-- The rest of a line that may hold only spaces and a comment. -/
def restOfLine (place : Cursor) : Except Fault Cursor :=
  let after := place.skipSpaces.skipComment
  if endsLine (after.peek 0) then .ok after.lineBreak.2 else .error .malformed

end Cursor

end DesignTokens.Yaml
