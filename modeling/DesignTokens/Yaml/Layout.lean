import DesignTokens.Entries
import DesignTokens.Yaml.ScalarText
import DesignTokens.Yaml.Token

/-!
# From text to tokens

Indentation opens and closes collections, and a colon makes a key of what stands
before it on the same line. So a token that may turn out to be a key is remembered
with its place until the line ends, and the marks of the key are put before it when
the colon comes.
-/

namespace DesignTokens.Yaml

/-- A token that may be a key: its number, where it begins, and whether it must be
one. -/
structure KeyPlace where
  number : Nat
  index : Nat
  line : Nat
  column : Nat
  required : Bool

structure Layout where
  place : Cursor
  tokens : Array Token
  /-- How many brackets are open. -/
  flowLevel : Nat
  indent : Int
  /-- The indentations around the current one. -/
  outer : List Int
  keyAllowed : Bool
  /-- The possible key at every depth of brackets. -/
  keys : List (Nat × KeyPlace)

namespace Layout

def start (chars : List Char) : Layout :=
  ⟨.start chars, #[], 0, -1, [], true, []⟩

def inFlow (s : Layout) : Bool :=
  s.flowLevel != 0

def push (s : Layout) (token : Token) : Layout :=
  { s with tokens := s.tokens.push token }

/-- The longest stretch between a key and its colon. -/
def keyReach : Nat := 1024

/-- Forgets the keys that can no longer be keys. -/
def dropStale (s : Layout) : Except Fault Layout :=
  let isStale (key : KeyPlace) : Bool :=
    key.line != s.place.line || keyReach < s.place.index - key.index
  if s.keys.any fun (_, key) => isStale key && key.required then
    .error .malformed
  else
    .ok { s with keys := s.keys.filter fun (_, key) => !isStale key }

/-- Forgets the possible key at this depth. -/
def forgetKey (s : Layout) : Except Fault Layout :=
  match Entries.get? s.keys s.flowLevel with
  | some key =>
    if key.required then .error .malformed
    else .ok { s with keys := Entries.erase s.keys s.flowLevel }
  | none => .ok s

/-- Remembers that the next token may be a key. -/
def rememberKey (s : Layout) : Except Fault Layout :=
  if s.keyAllowed then do
    let s ← s.forgetKey
    let required := !s.inFlow && s.indent == s.place.column
    let key : KeyPlace :=
      ⟨s.tokens.size, s.place.index, s.place.line, s.place.column, required⟩
    return { s with keys := Entries.insert s.keys s.flowLevel key }
  else
    .ok s

/-- Closes the collections that are indented more than `column`. -/
def unwind (s : Layout) (column : Int) : Layout :=
  if s.inFlow then s else close s.outer s
where
  close : List Int → Layout → Layout
    | [], s => s
    | indent :: outer, s =>
      if column < s.indent then
        close outer { s with indent, outer, tokens := s.tokens.push .blockEnd }
      else
        s

/-- Opens a deeper indentation; whether it is deeper is said beside the result. -/
def deepen (s : Layout) (column : Nat) : Bool × Layout :=
  if s.indent < column then
    (true, { s with indent := column, outer := s.indent :: s.outer })
  else
    (false, s)

/-- Opens a block collection at the current column if it is deeper. -/
def openBlock (s : Layout) (token : Token) : Layout :=
  let (isDeeper, s) := s.deepen s.place.column
  if isDeeper then s.push token else s

/-- The place of the next token; line breaks outside brackets allow keys again. -/
def skipGaps : Nat → Layout → Layout
  | 0, s => s
  | fuel + 1, s =>
    let here := s.place.skipSpaces.skipComment
    if here.rest.head?.any isBreak then
      skipGaps fuel
        { s with place := here.lineBreak.2, keyAllowed := s.keyAllowed || !s.inFlow }
    else
      { s with place := here }

/-- A token of a mark of so many characters. -/
def mark (s : Layout) (token : Token) (width : Nat) : Layout :=
  { s with place := s.place.advance width, tokens := s.tokens.push token }

/-- A token that stands on a line of its own. -/
def fetchLine (s : Layout) (read : Read) : Except Fault Layout := do
  let s ← (s.unwind (-1)).forgetKey
  let (token, place) ← read
  return { s with place, keyAllowed := false, tokens := s.tokens.push token }

/-- A token that may be the beginning of a key. -/
def fetchWord (s : Layout) (read : Read) : Except Fault Layout := do
  let s ← s.rememberKey
  let (token, place) ← read
  return { s with place, keyAllowed := false, tokens := s.tokens.push token }

def fetchOpening (s : Layout) (token : Token) : Except Fault Layout := do
  let s ← s.rememberKey
  return { s.mark token 1 with flowLevel := s.flowLevel + 1, keyAllowed := true }

def fetchClosing (s : Layout) (token : Token) : Except Fault Layout := do
  let s ← s.forgetKey
  return { s.mark token 1 with flowLevel := s.flowLevel - 1, keyAllowed := false }

def fetchFlowEntry (s : Layout) : Except Fault Layout := do
  let s ← s.forgetKey
  return { s.mark .flowEntry 1 with keyAllowed := true }

def fetchBlockEntry (s : Layout) : Except Fault Layout := do
  if !s.inFlow && !s.keyAllowed then
    throw .malformed
  let s := if s.inFlow then s else s.openBlock .blockSequenceStart
  let s ← s.forgetKey
  return { s.mark .blockEntry 1 with keyAllowed := true }

def fetchKey (s : Layout) : Except Fault Layout := do
  if !s.inFlow && !s.keyAllowed then
    throw .malformed
  let s := if s.inFlow then s else s.openBlock .blockMappingStart
  let s ← s.forgetKey
  return { s.mark .key 1 with keyAllowed := !s.inFlow }

/-- A colon: what was remembered at this depth becomes a key. -/
def fetchValue (s : Layout) : Except Fault Layout :=
  match Entries.get? s.keys s.flowLevel with
  | some key =>
    let (isDeeper, s) := if s.inFlow then (false, s) else s.deepen key.column
    let marks := if isDeeper then #[.blockMappingStart, .key] else #[.key]
    let before := s.tokens.extract 0 key.number
    let after := s.tokens.extract key.number s.tokens.size
    let s := { s with
      keys := Entries.erase s.keys s.flowLevel
      tokens := before ++ marks ++ after
      keyAllowed := false }
    .ok (s.mark .value 1)
  | none => do
    if !s.inFlow && !s.keyAllowed then
      throw .malformed
    let s := if s.inFlow then s else s.openBlock .blockMappingStart
    let s ← s.forgetKey
    return { s.mark .value 1 with keyAllowed := !s.inFlow }

def fetchQuoted (s : Layout) (quote : Char) : Except Fault Layout :=
  s.fetchWord do
    let (text, after) ← quotedText quote s.place
    return (.scalar (String.ofList text) false, after)

def fetchBlockText (s : Layout) (folded : Bool) : Except Fault Layout := do
  let s ← s.forgetKey
  let (text, place) ← blockText folded s.indent s.place
  return { s with
    place
    keyAllowed := true
    tokens := s.tokens.push (.scalar (String.ofList text) false) }

def fetchPlain (s : Layout) : Except Fault Layout := do
  let s ← s.rememberKey
  let (text, lineEnded, place) := plainText s.inFlow s.indent s.place
  return { s with
    place
    keyAllowed := lineEnded
    tokens := s.tokens.push (.scalar (String.ofList text) true) }

/-- Marks that cannot begin plain text. -/
def isMark (c : Char) : Bool :=
  "-?:,[]\x7b\x7d#&*!|>'\"%@`".toList.contains c

def beginsPlain (s : Layout) (c : Char) : Bool :=
  !(isSpace c || isBreak c || isMark c) ||
    (!separates (s.place.peek 1) && (c = '-' || (!s.inFlow && (c = '?' || c = ':'))))

/-- The next token, which begins with the character `c`. -/
def fetch (s : Layout) (c : Char) : Except Fault Layout :=
  let alone := separates (s.place.peek 1)
  let atMargin := s.place.column = 0
  if c = '%' ∧ atMargin then s.fetchLine (readDirective s.place)
  else if atMargin ∧ s.place.atMarker '-' then s.fetchLine (.ok (.documentStart, s.place.advance 3))
  else if atMargin ∧ s.place.atMarker '.' then s.fetchLine (.ok (.documentEnd, s.place.advance 3))
  else if c = '[' then s.fetchOpening .flowSequenceStart
  else if c = '\x7b' then s.fetchOpening .flowMappingStart
  else if c = ']' then s.fetchClosing .flowSequenceEnd
  else if c = '\x7d' then s.fetchClosing .flowMappingEnd
  else if c = ',' then s.fetchFlowEntry
  else if c = '-' ∧ alone then s.fetchBlockEntry
  else if c = '?' ∧ (s.inFlow ∨ alone) then s.fetchKey
  else if c = ':' ∧ (s.inFlow ∨ alone) then s.fetchValue
  else if c = '*' then s.fetchWord (readAlias s.place)
  else if c = '&' then s.fetchWord (readAnchor s.place)
  else if c = '!' then s.fetchWord (readTag s.place)
  else if c = '|' ∧ !s.inFlow then s.fetchBlockText false
  else if c = '>' ∧ !s.inFlow then s.fetchBlockText true
  else if c = '\'' ∨ c = '"' then s.fetchQuoted c
  else if s.beginsPlain c then s.fetchPlain
  else .error .malformed

def fetchEnd (s : Layout) : Except Fault (Array Token) := do
  let s ← (s.unwind (-1)).forgetKey
  return s.tokens.push .streamEnd

/-- All tokens from here on. Every step takes at least one character. -/
def run : Nat → Layout → Except Fault (Array Token)
  | 0, _ => .error .malformed
  | fuel + 1, s => do
    let s ← (skipGaps (s.place.rest.length + 1) s).dropStale
    let s := s.unwind s.place.column
    match s.place.rest with
    | [] => s.fetchEnd
    | c :: _ => run fuel (← s.fetch c)

end Layout

/-- Characters that may stand in a YAML text. -/
def isPrintable (c : Char) : Bool :=
  let n := c.toNat
  n = 0x9 || n = 0xA || n = 0xD || (0x20 ≤ n && n ≤ 0x7E) || n = 0x85 ||
    (0xA0 ≤ n && n ≤ 0xD7FF) || (0xE000 ≤ n && n ≤ 0xFFFD) || 0x10000 ≤ n

/-- The tokens of a text. A byte order mark may stand at its beginning. -/
def tokens (text : String) : Except Fault (List Token) := do
  let chars := Text.unifyNewlines text.toList
  if chars.all isPrintable then
    let place := Cursor.start chars
    let first := if place.peek 0 = some '\ufeff' then place.step else place
    let found ← Layout.run (chars.length + 2) { Layout.start chars with place := first }
    return found.toList
  else
    throw .malformed

end DesignTokens.Yaml
