import DesignTokens.Text.Stretch

/-!
# Patterns of file names

In a pattern of one name `*` stands for any text, `?` for one character and brackets
for one character of a class, or outside of it if the class begins with `!`. A bracket
that is never closed stands for itself. Every other character stands for itself.
-/

namespace DesignTokens

/-- Characters from `low` to `high`. -/
structure CharRange where
  low : Char
  high : Char
deriving DecidableEq, Repr

/-- A part of the pattern of a name. -/
inductive NamePart where
  /-- Any text, even none. -/
  | anyText
  /-- Any one character. -/
  | anyChar
  | char (c : Char)
  /-- One character that lies in one of the ranges, or in none if `negated`. -/
  | oneOf (negated : Bool) (ranges : List CharRange)
deriving DecidableEq, Repr

namespace CharRange

def contains (range : CharRange) (c : Char) : Bool :=
  range.low ≤ c && c ≤ range.high

/-- A class cut at the hyphens that make ranges. The first `skipped` characters of a
stretch make none, and a hyphen at the end belongs to the stretch before it. -/
def cutAtHyphens (skipped : Nat) (chars : List Char) : List (List Char) :=
  go chars.length skipped chars
where
  go : Nat → Nat → List Char → List (List Char)
    | 0, _, chars => [chars]
    | budget + 1, skipped, chars =>
      let head := chars.take skipped ++ (chars.drop skipped).takeWhile (· ≠ '-')
      match (chars.drop skipped).dropWhile (· ≠ '-') with
      | [] => [head]
      | [_] => [head ++ ['-']]
      | _ :: rest => head :: go budget 2 rest

/-- A stretch in front of others. If the range between it and the next one runs
backwards, the range and both of its ends are dropped. -/
def joinStretch (first : List Char) : List (List Char) → List (List Char)
  | [] => [first]
  | next :: others =>
    match first.getLast?, next.head? with
    | some low, some high =>
      if high < low then (first.dropLast ++ next.drop 1) :: others else first :: next :: others
    | _, _ => first :: next :: others

/-- The characters of a class; nothing stands for a hyphen that makes a range. -/
def classMarks (content : List Char) : List (Option Char) :=
  let skipped := if content.head? = some '!' then 2 else 1
  let stretches := (cutAtHyphens skipped content).foldr joinStretch []
  [none].intercalate (stretches.map fun stretch => stretch.map some)

/-- The ranges that the marks of a class spell. -/
def ofMarks : List (Option Char) → List CharRange
  | some low :: none :: some high :: rest => ⟨low, high⟩ :: ofMarks rest
  | some c :: rest => ⟨c, c⟩ :: ofMarks rest
  | none :: rest => ⟨'-', '-'⟩ :: ofMarks rest
  | [] => []

end CharRange

namespace NamePart

/-- The class between two brackets. -/
def ofClass (content : List Char) : NamePart :=
  match CharRange.classMarks content with
  | some '!' :: marks => .oneOf true (CharRange.ofMarks marks)
  | marks => .oneOf false (CharRange.ofMarks marks)

/-- The content of a class after its opening bracket and what follows the closing one.
A closing bracket right at the beginning belongs to the class. -/
def splitClass? (chars : List Char) : Option (List Char × List Char) :=
  let lead := match chars with
    | '!' :: ']' :: _ => 2
    | '!' :: _ => 1
    | ']' :: _ => 1
    | _ => 0
  match (chars.drop lead).dropWhile (· ≠ ']') with
  | _ :: rest => some (chars.take lead ++ (chars.drop lead).takeWhile (· ≠ ']'), rest)
  | [] => none

/-- The parts of the pattern of a name; there are at most `budget`. -/
def parse : Nat → List Char → List NamePart
  | 0, _ => []
  | _, [] => []
  | budget + 1, c :: rest =>
    if c = '*' then .anyText :: parse budget rest
    else if c = '?' then .anyChar :: parse budget rest
    else if c = '[' then
      match splitClass? rest with
      | some (content, after) => ofClass content :: parse budget after
      | none => .char c :: parse budget rest
    else .char c :: parse budget rest

/-- The parts of the pattern of a name. -/
def ofText (text : String) : List NamePart :=
  parse text.length text.toList

/-- The part stands for this one character. -/
def accepts (part : NamePart) (c : Char) : Bool :=
  match part with
  | .anyText | .anyChar => true
  | .char d => c = d
  | .oneOf negated ranges => (ranges.any fun range => range.contains c) != negated

/-- The parts together stand for a whole name. -/
def covers : List NamePart → List Char → Bool
  | [], name => name.isEmpty
  | .anyText :: parts, [] => covers parts []
  | .anyText :: parts, c :: name => covers parts (c :: name) || covers (.anyText :: parts) name
  | _ :: _, [] => false
  | part :: parts, c :: name => part.accepts c && covers parts name
termination_by parts name => parts.length + name.length

end NamePart

/-- One step of a pattern of paths. -/
inductive Step where
  /-- A name as it stands. -/
  | name (text : String)
  /-- Any name that the parts cover. Names with a leading dot only count if the
  pattern has a leading dot too. -/
  | wild (hidden : Bool) (parts : List NamePart)
  /-- Any number of directories, those with a leading dot left out. -/
  | anyDepth
  /-- The slash at the end of a pattern that stands for directories only. -/
  | directory
deriving DecidableEq, Repr

namespace Step

def isMagic (c : Char) : Bool :=
  c = '*' || c = '?' || c = '['

def isHidden (name : String) : Bool :=
  ".".isPrefixOf name

def ofText (text : String) : Step :=
  if text = "**" then .anyDepth
  else if text.toList.any isMagic then .wild (isHidden text) (NamePart.ofText text)
  else .name text

/-- The name counts in a step that looks for names. -/
def covers (hidden : Bool) (parts : List NamePart) (name : String) : Bool :=
  (hidden || !isHidden name) && NamePart.covers parts name.toList

end Step

/-- A pattern of paths from the root of the file tree. -/
structure Pattern where
  anchor : String
  steps : List Step
deriving Repr

namespace Pattern

/-- The pattern of an absolute path. -/
def ofText (anchor text : String) : Pattern :=
  let names := (Text.fields '/' text).filter (!·.isEmpty)
  let closing := if text.toList.getLast? = some '/' && !names.isEmpty then [.directory] else []
  ⟨anchor, names.map Step.ofText ++ closing⟩

end Pattern

example : NamePart.covers (NamePart.ofText "*.tokens.json") "color.tokens.json".toList = true := by decide +kernel

example : NamePart.covers (NamePart.ofText "[!a-c]?") "dz".toList = true := by decide +kernel

end DesignTokens
