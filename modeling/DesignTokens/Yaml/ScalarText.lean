import DesignTokens.Text.Radix
import DesignTokens.Yaml.Cursor

/-!
# The text of scalars

Plain, quoted and block scalars may run over several lines. A single line break
inside plain or quoted text is a space, further breaks are kept; a block keeps its
breaks or folds them. Every reader gives the text and the place behind it.
-/

namespace DesignTokens.Yaml

/-! ## Plain text -/

def isFlowMark (c : Char) : Bool :=
  c = ',' || c = '[' || c = ']' || c = '\x7b' || c = '\x7d'

/-- Plain text up to a separator, the end of a key or, between brackets, a mark. -/
def plainWord (inFlow : Bool) : List Char → List Char
  | [] => []
  | c :: rest =>
    let endsKey := c = ':' && (separates rest.head? || (inFlow && rest.head?.any isFlowMark))
    if separates (some c) || endsKey || (inFlow && (c = '?' || isFlowMark c)) then
      []
    else
      c :: plainWord inFlow rest

/-- Empty lines inside plain text; nothing if a document marker follows. -/
def plainBreaks : Nat → List Char → Cursor → Option (List Char) × Cursor
  | 0, found, place => (some found, place)
  | fuel + 1, found, place =>
    match place.rest with
    | [] => (some found, place)
    | c :: _ =>
      if c = ' ' then
        plainBreaks fuel found place.step
      else if isBreak c then
        let (text, after) := place.lineBreak
        if after.atAnyMarker then (none, after) else plainBreaks fuel (found ++ text) after
      else
        (some found, place)

/-- What stands for a single line break and the empty lines after it. -/
def foldedBreaks (first more : List Char) : List Char :=
  if first ≠ ['\n'] then first ++ more
  else if more.isEmpty then [' ']
  else more

/-- The text between two words of a plain scalar, whether a line ended there, and the
place behind it. No text means that the scalar ends. -/
def plainGap (place : Cursor) : List Char × Bool × Cursor :=
  let spaces := place.ahead (· = ' ')
  let after := place.skipSpaces
  match after.peek 0 with
  | some c =>
    if isBreak c then
      let (first, next) := after.lineBreak
      if next.atAnyMarker then
        ([], true, next)
      else
        match plainBreaks next.rest.length [] next with
        | (some more, behind) => (foldedBreaks first more, true, behind)
        | (none, behind) => ([], true, behind)
    else
      (spaces, false, after)
  | none => (spaces, false, after)

/-- The words of a plain scalar. `gap` is the text before the next word and
`lineEnded` says whether a line ended there. -/
def plainWords (inFlow : Bool) (indent : Int) :
    Nat → List Char → List Char → Bool → Cursor → List Char × Bool × Cursor
  | 0, found, _, lineEnded, place => (found, lineEnded, place)
  | fuel + 1, found, gap, lineEnded, place =>
    if place.peek 0 = some '#' then
      (found, lineEnded, place)
    else
      let word := plainWord inFlow place.rest
      if word.isEmpty then
        (found, lineEnded, place)
      else
        let (nextGap, ended, behind) := plainGap (place.advance word.length)
        let text := found ++ gap ++ word
        if nextGap.isEmpty || behind.peek 0 = some '#' || (!inFlow && behind.column < indent) then
          (text, ended, behind)
        else
          plainWords inFlow indent fuel text nextGap ended behind

/-- A plain scalar, whether a line ended behind it, and the place behind it. -/
def plainText (inFlow : Bool) (indent : Int) (place : Cursor) : List Char × Bool × Cursor :=
  plainWords inFlow (indent + 1) (place.rest.length + 1) [] [] false place

/-! ## Quoted text -/

/-- Line breaks inside quotes; a document marker may not stand there. -/
def quotedBreaks : Nat → List Char → Cursor → Except Fault (List Char × Cursor)
  | 0, _, _ => .error .malformed
  | fuel + 1, found, place =>
    if place.atAnyMarker then
      .error .malformed
    else
      let after := place.skip isSpace
      if after.rest.head?.any isBreak then
        let (text, next) := after.lineBreak
        quotedBreaks fuel (found ++ text) next
      else
        .ok (found, after)

/-- Characters that a backslash and a letter stand for. -/
def simpleEscapes : List (Char × Char) :=
  [('0', '\x00'), ('a', '\x07'), ('b', '\x08'), ('t', '\t'), ('\t', '\t'), ('n', '\n'),
    ('v', '\x0b'), ('f', '\x0c'), ('r', '\r'), ('e', '\x1b'), (' ', ' '), ('"', '"'),
    ('\\', '\\'), ('/', '/'), ('N', '\x85'), ('_', '\u00a0'), ('L', '\u2028'), ('P', '\u2029')]

/-- Letters that are followed by a code point in so many hexadecimal digits. -/
def codeEscapes : List (Char × Nat) := [('x', 2), ('u', 4), ('U', 8)]

/-- The text for an escape after its backslash. -/
def escaped (place : Cursor) : Except Fault (List Char × Cursor) :=
  match place.rest with
  | [] => .error .malformed
  | c :: rest =>
    match simpleEscapes.lookup c, codeEscapes.lookup c with
    | some plain, _ => .ok ([plain], place.step)
    | none, some width =>
      let digits := rest.take width
      match if digits.length = width then Text.numberOfBase? 16 digits else none with
      | some code =>
        if code < 0x110000 then .ok ([Char.ofNat code], place.advance (width + 1))
        else .error (.scalar (.taggedScalar "character"))
      | none => .error .malformed
    | none, none =>
      if isBreak c then
        let after := place.lineBreak.2
        quotedBreaks (after.rest.length + 1) [] after
      else
        .error .malformed

/-- Quoted text after its opening quote. -/
def quotedFrom (quote : Char) : Nat → List Char → Cursor → Except Fault (List Char × Cursor)
  | 0, _, _ => .error .malformed
  | fuel + 1, found, place =>
    match place.rest with
    | [] => .error .malformed
    | c :: rest =>
      if c = quote then
        if c = '\'' && rest.head? = some '\'' then
          quotedFrom quote fuel (found ++ ['\'']) (place.advance 2)
        else
          .ok (found, place.step)
      else if c = '\\' && quote = '"' then
        match escaped place.step with
        | .ok (text, after) => quotedFrom quote fuel (found ++ text) after
        | .error fault => .error fault
      else if isSpace c || isBreak c then
        let spaces := place.ahead isSpace
        let after := place.skip isSpace
        match after.peek 0 with
        | none => .error .malformed
        | some next =>
          if isBreak next then
            let (first, behind) := after.lineBreak
            match quotedBreaks (behind.rest.length + 1) [] behind with
            | .ok (more, last) => quotedFrom quote fuel (found ++ foldedBreaks first more) last
            | .error fault => .error fault
          else
            quotedFrom quote fuel (found ++ spaces) after
      else
        quotedFrom quote fuel (found ++ [c]) place.step

/-- A quoted scalar that begins here with its quote. -/
def quotedText (quote : Char) (place : Cursor) : Except Fault (List Char × Cursor) :=
  quotedFrom quote (place.rest.length + 1) [] place.step

/-! ## Blocks -/

/-- What becomes of the line breaks at the end of a block. -/
inductive Chomping where
  | strip
  | clip
  | keep
deriving DecidableEq, Repr

def chomping? : Option Char → Option Chomping
  | some '+' => some .keep
  | some '-' => some .strip
  | _ => none

def increment? (next : Option Char) : Option Nat :=
  next.bind fun c => if c.isDigit then some (c.toNat - '0'.toNat) else none

/-- The chomping and the indentation in the head of a block, in either order. -/
def blockHead (place : Cursor) : Except Fault (Chomping × Option Nat × Cursor) := do
  let (chomping, increment, after) :=
    match chomping? (place.peek 0) with
    | some found =>
      match increment? (place.peek 1) with
      | some n => (found, some n, place.advance 2)
      | none => (found, none, place.step)
    | none =>
      match increment? (place.peek 0) with
      | some n =>
        match chomping? (place.peek 1) with
        | some found => (found, some n, place.advance 2)
        | none => (Chomping.clip, some n, place.step)
      | none => (Chomping.clip, none, place)
  if increment = some 0 || !endsWord (after.peek 0) then
    throw .malformed
  return (chomping, increment, ← after.restOfLine)

/-- Empty lines before the first line of a block, and the widest indentation seen. -/
def leadingBreaks : Nat → List Char → Nat → Cursor → List Char × Nat × Cursor
  | 0, found, widest, place => (found, widest, place)
  | fuel + 1, found, widest, place =>
    match place.rest with
    | [] => (found, widest, place)
    | c :: _ =>
      if c = ' ' then
        leadingBreaks fuel found (max widest place.step.column) place.step
      else if isBreak c then
        let (text, after) := place.lineBreak
        leadingBreaks fuel (found ++ text) widest after
      else
        (found, widest, place)

/-- The place behind the spaces of an indentation. -/
def skipIndent (indent : Nat) (place : Cursor) : Cursor :=
  place.advance (min (indent - place.column) (place.ahead (· = ' ')).length)

/-- Empty lines inside a block, and the place behind the next indentation. -/
def blockBreaks (indent : Nat) : Nat → List Char → Cursor → List Char × Cursor
  | 0, found, place => (found, skipIndent indent place)
  | fuel + 1, found, place =>
    let here := skipIndent indent place
    if here.rest.head?.any isBreak then
      let (text, after) := here.lineBreak
      blockBreaks indent fuel (found ++ text) after
    else
      (found, here)

/-- The lines of a block from here on: the text, the last line break and the empty
lines behind it. -/
def blockLines (folded : Bool) (indent : Nat) :
    Nat → List Char → List Char → List Char → Cursor → List Char × List Char × List Char × Cursor
  | 0, found, last, breaks, place => (found, last, breaks, place)
  | fuel + 1, found, last, breaks, place =>
    if place.column = indent && !place.rest.isEmpty then
      let line := place.ahead fun c => !isBreak c
      let (text, after) := (place.advance line.length).lineBreak
      let (more, next) := blockBreaks indent after.rest.length [] after
      let joined :=
        if next.column = indent && !next.rest.isEmpty then
          if folded && text = ['\n'] && !line.head?.any isSpace && !next.rest.head?.any isSpace then
            if more.isEmpty then [' '] else []
          else
            text
        else
          []
      blockLines folded indent fuel (found ++ breaks ++ line ++ joined) text more next
    else
      (found, last, breaks, place)

/-- A block scalar that begins here with its mark; `indent` is the indentation around
it. -/
def blockText (folded : Bool) (indent : Int) (place : Cursor) :
    Except Fault (List Char × Cursor) := do
  let (chomping, increment, body) ← blockHead place.step
  let least : Nat := max 1 (indent + 1).toNat
  let fuel := body.rest.length + 1
  let (breaks, width, first) :=
    match increment with
    | some n =>
      let width := least + n - 1
      let (breaks, first) := blockBreaks width fuel [] body
      (breaks, width, first)
    | none =>
      let (breaks, widest, first) := leadingBreaks fuel [] 0 body
      (breaks, max least widest, first)
  let (text, last, trailing, behind) := blockLines folded width fuel [] [] breaks first
  let kept := match chomping with
    | .strip => []
    | .clip => last
    | .keep => last ++ trailing
  return (text ++ kept, behind)

end DesignTokens.Yaml
