import DesignTokens.Decimal.Numeral
import DesignTokens.Text.Radix
import DesignTokens.Yaml.Cursor

/-!
# YAML tokens

The marks, names and texts that a YAML document is made of, and the readers of those
that stand on one line: anchors, tags and directives.
-/

namespace DesignTokens.Yaml

inductive Token where
  | versionDirective (major : Nat)
  | tagDirective (handle start : String)
  | otherDirective
  | documentStart
  | documentEnd
  | streamEnd
  | blockSequenceStart
  | blockMappingStart
  | blockEnd
  | flowSequenceStart
  | flowSequenceEnd
  | flowMappingStart
  | flowMappingEnd
  | blockEntry
  | flowEntry
  | key
  | value
  | alias (name : String)
  | anchor (name : String)
  | tag (handle : Option String) (suffix : String)
  | scalar (text : String) (isPlain : Bool)
deriving DecidableEq, Repr

/-- A token and the place behind it. -/
abbrev Read := Except Fault (Token × Cursor)

/-- The name of an anchor or alias after its mark. -/
def readName (place : Cursor) : Except Fault (String × Cursor) :=
  let name := place.ahead isNameChar
  let after := place.skip isNameChar
  let ends := (after.peek 0).all fun c =>
    isSpace c || isBreak c || "?:,]\x7d%@`".toList.contains c
  if name.isEmpty || !ends then .error .malformed
  else .ok (String.ofList name, after)

def readAnchor (place : Cursor) : Read := do
  let (name, after) ← readName place.step
  return (.anchor name, after)

def readAlias (place : Cursor) : Read := do
  let (name, after) ← readName place.step
  return (.alias name, after)

/-- A tag handle: one exclamation mark, or a name between two. -/
def readHandle (place : Cursor) : Except Fault (String × Cursor) :=
  if place.peek 0 ≠ some '!' then
    .error .malformed
  else if place.peek 1 = some ' ' then
    .ok ("!", place.step)
  else
    let name := place.step.ahead isNameChar
    let after := place.step.skip isNameChar
    if after.peek 0 = some '!' then
      .ok ("!" ++ String.ofList name ++ "!", after.step)
    else
      .error .malformed

def isUriChar (c : Char) : Bool :=
  isNameChar c || ";/?:@&=+$,.!~*'()[]".toList.contains c

/-- Octets that are written with percent signs. -/
def readOctets : Nat → List UInt8 → Cursor → Except Fault (List UInt8 × Cursor)
  | 0, found, place => .ok (found, place)
  | fuel + 1, found, place =>
    if place.peek 0 = some '%' then
      let digits := (place.rest.drop 1).take 2
      match if digits.length = 2 then Text.numberOfBase? 16 digits else none with
      | some code => readOctets fuel (found ++ [code.toUInt8]) (place.advance 3)
      | none => .error .malformed
    else
      .ok (found, place)

/-- The characters of a tag, octets in UTF-8 being written with percent signs. -/
def readUri : Nat → List Char → Cursor → Except Fault (String × Cursor)
  | 0, _, _ => .error .malformed
  | fuel + 1, found, place =>
    match place.peek 0 with
    | some '%' => do
      let (octets, after) ← readOctets place.rest.length [] place
      match String.fromUTF8? ⟨octets.toArray⟩ with
      | some text => readUri fuel (found ++ text.toList) after
      | none => throw .malformed
    | next =>
      if next.any isUriChar then
        readUri fuel (found ++ next.toList) place.step
      else if found.isEmpty then
        .error .malformed
      else
        .ok (String.ofList found, place)

def readUriText (place : Cursor) : Except Fault (String × Cursor) :=
  readUri (place.rest.length + 1) [] place

/-- The handle and the suffix of a tag. -/
def readTagParts (place : Cursor) : Except Fault (Option String × String × Cursor) :=
  match place.peek 1 with
  | some '<' => do
    let (suffix, after) ← readUriText (place.advance 2)
    if after.peek 0 = some '>' then
      return (none, suffix, after.step)
    else
      throw .malformed
  | next =>
    if separates next then
      .ok (none, "!", place.step)
    else do
      let word := place.step.ahead fun c => !(c = ' ' || isBreak c)
      let (handle, after) ← if '!' ∈ word then readHandle place else pure ("!", place.step)
      let (suffix, behind) ← readUriText after
      return (some handle, suffix, behind)

def readTag (place : Cursor) : Read := do
  let (handle, suffix, after) ← readTagParts place
  if endsWord (after.peek 0) then
    return (.tag handle suffix, after)
  else
    throw .malformed

def readNumber (place : Cursor) : Except Fault (Nat × Cursor) :=
  let digits := place.ahead Char.isDigit
  if digits.isEmpty then .error .malformed
  else .ok (Decimal.naturalOf digits, place.skip Char.isDigit)

def readVersion (place : Cursor) : Read := do
  let (major, after) ← readNumber place.skipSpaces
  if after.peek 0 ≠ some '.' then
    throw .malformed
  let (_, behind) ← readNumber after.step
  if endsWord (behind.peek 0) then
    return (.versionDirective major, behind)
  else
    throw .malformed

def readTagDirective (place : Cursor) : Read := do
  let (handle, after) ← readHandle place.skipSpaces
  if after.peek 0 ≠ some ' ' then
    throw .malformed
  let (start, behind) ← readUriText after.skipSpaces
  if endsWord (behind.peek 0) then
    return (.tagDirective handle start, behind)
  else
    throw .malformed

/-- A directive with its whole line. -/
def readDirective (place : Cursor) : Read := do
  let name := place.step.ahead isNameChar
  let after := place.step.skip isNameChar
  if name.isEmpty || !endsWord (after.peek 0) then
    throw .malformed
  let (token, behind) ←
    if name = "YAML".toList then readVersion after
    else if name = "TAG".toList then readTagDirective after
    else pure (.otherDirective, after.skip fun c => !isBreak c)
  return (token, ← behind.restOfLine)

end DesignTokens.Yaml
