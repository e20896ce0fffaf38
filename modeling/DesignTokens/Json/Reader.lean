import DesignTokens.Decimal.Numeral
import DesignTokens.Entries
import DesignTokens.Text.Radix
import DesignTokens.Value.Basic

/-!
# Reading JSON text

Whole numbers of any size and doubles are told apart by their spelling, and the
words `NaN`, `Infinity` and `-Infinity` are numbers too. A repeated key keeps its
first place and takes the last value. Text after the value is an error, as is any
control character inside quotes.
-/

namespace DesignTokens.Json

inductive Fault where
  /-- The text is not JSON. -/
  | malformed
  /-- A whole number has more digits than `Text.digitLimit`. -/
  | oversizedNumber
deriving DecidableEq, Repr

/-- What is left after a part has been read. -/
abbrev Rest := List Char

def skipBlanks : List Char → List Char :=
  List.dropWhile fun c => c = ' ' ∨ c = '\t' ∨ c = '\n' ∨ c = '\r'

def simpleEscape? : Char → Option Char
  | '"' => some '"'
  | '\\' => some '\\'
  | '/' => some '/'
  | 'b' => some '\x08'
  | 'f' => some '\x0c'
  | 'n' => some '\n'
  | 'r' => some '\r'
  | 't' => some '\t'
  | _ => none

/-- The code points and UTF-16 units of quoted text after its opening quote, last
first, and what follows the closing quote. -/
def readUnits (found : List Nat) : List Char → Except Fault (List Nat × Rest)
  | '"' :: rest => .ok (found, rest)
  | '\\' :: 'u' :: a :: b :: c :: d :: rest =>
    match Text.numberOfBase? 16 [a, b, c, d] with
    | some unit => readUnits (unit :: found) rest
    | none => .error .malformed
  | '\\' :: mark :: rest =>
    match simpleEscape? mark with
    | some c => readUnits (c.toNat :: found) rest
    | none => .error .malformed
  | c :: rest => if c.toNat < 0x20 then .error .malformed else readUnits (c.toNat :: found) rest
  | [] => .error .malformed

/-- Characters from code points, two surrogate units making one character. -/
def joinSurrogates : List Nat → List Char
  | high :: low :: rest =>
    if 0xD800 ≤ high ∧ high < 0xDC00 ∧ 0xDC00 ≤ low ∧ low < 0xE000 then
      Char.ofNat (0x10000 + (high - 0xD800) * 0x400 + (low - 0xDC00)) :: joinSurrogates rest
    else
      Char.ofNat high :: joinSurrogates (low :: rest)
  | [n] => [Char.ofNat n]
  | [] => []

def readText (chars : List Char) : Except Fault (String × Rest) := do
  let (units, rest) ← readUnits [] chars
  return (String.ofList (joinSurrogates units.reverse), rest)

/-- The digits of an exponent part and what follows it, if there is one. -/
def splitExponent (chars : List Char) : Option (Int × Rest) :=
  match chars with
  | mark :: rest =>
    let (negative, afterSign) := Decimal.splitSign rest
    let (digits, after) := Decimal.splitDigits afterSign
    if (mark = 'e' ∨ mark = 'E') ∧ digits ≠ [] then
      let size : Int := Decimal.naturalOf digits
      some (if negative then -size else size, after)
    else
      none
  | [] => none

/-- The digits of a fraction part and what follows it, if there is one. -/
def splitFraction (chars : List Char) : Option (List Char × Rest) :=
  match chars with
  | '.' :: rest =>
    let (digits, after) := Decimal.splitDigits rest
    if digits.isEmpty then none else some (digits, after)
  | _ => none

/-- A number: no leading zeros, a fraction and an exponent only with digits. Either
of the two makes it a double. -/
def readNumber (chars : List Char) : Except Fault (Value × Rest) :=
  let (negative, body) := match chars with
    | '-' :: rest => (true, rest)
    | _ => (false, chars)
  let (digits, afterDigits) := match body with
    | '0' :: rest => (['0'], rest)
    | _ => Decimal.splitDigits body
  let afterFraction := match splitFraction afterDigits with
    | some (_, after) => after
    | none => afterDigits
  let fraction := ((splitFraction afterDigits).map Prod.fst).getD []
  if digits.isEmpty then
    .error .malformed
  else
    match splitExponent afterFraction with
    | some (exponent, after) =>
      .ok (.float (Decimal.floatOfDecimal negative (Decimal.naturalOf (digits ++ fraction))
        (exponent - fraction.length)), after)
    | none =>
      if !fraction.isEmpty then
        .ok (.float (Decimal.floatOfDecimal negative (Decimal.naturalOf (digits ++ fraction))
          (-(fraction.length : Int))), afterFraction)
      else if Text.digitLimit < digits.length then
        .error .oversizedNumber
      else
        let size : Int := Decimal.naturalOf digits
        .ok (.int (if negative then -size else size), afterDigits)

/-- Words that stand for a value. -/
def words : List (String × Value) :=
  [("null", .null), ("true", .bool true), ("false", .bool false), ("NaN", .float (0.0 / 0.0)),
    ("Infinity", .float (1.0 / 0.0)), ("-Infinity", .float (-1.0 / 0.0))]

/-- The value of the word that the text starts with, and what follows it. -/
def readWord? (chars : List Char) : Option (Value × Rest) :=
  words.findSome? fun (word, value) =>
    if word.toList.isPrefixOf chars then some (value, chars.drop word.length) else none

mutual

/-- A value at the start of the text; `budget` bounds the number of parts. -/
def readValue : Nat → List Char → Except Fault (Value × Rest)
  | 0, _ => .error .malformed
  | budget + 1, chars =>
    match chars with
    | '"' :: rest => do
      let (s, after) ← readText rest
      return (.text s, after)
    | '[' :: rest =>
      match skipBlanks rest with
      | ']' :: after => .ok (.list [], after)
      | body => do
        let (items, after) ← readItems budget [] body
        return (.list items, after)
    | '\x7b' :: rest =>
      match skipBlanks rest with
      | '\x7d' :: after => .ok (.object [], after)
      | body => do
        let (entries, after) ← readEntries budget [] body
        return (.object entries, after)
    | _ =>
      match readWord? chars with
      | some found => .ok found
      | none => readNumber chars

/-- The items up to a closing bracket; `found` holds the items before, last first. -/
def readItems : Nat → List Value → List Char → Except Fault (List Value × Rest)
  | 0, _, _ => .error .malformed
  | budget + 1, found, chars => do
    let (item, after) ← readValue budget chars
    match skipBlanks after with
    | ',' :: rest => readItems budget (item :: found) (skipBlanks rest)
    | ']' :: rest => return ((item :: found).reverse, rest)
    | _ => .error .malformed

/-- The entries up to a closing brace; `found` holds the entries before. -/
def readEntries : Nat → Object → List Char → Except Fault (Object × Rest)
  | 0, _, _ => .error .malformed
  | budget + 1, found, chars =>
    match chars with
    | '"' :: rest => do
      let (key, afterKey) ← readText rest
      match skipBlanks afterKey with
      | ':' :: body => do
        let (value, after) ← readValue budget (skipBlanks body)
        let entries := Entries.insert found key value
        match skipBlanks after with
        | ',' :: rest => readEntries budget entries (skipBlanks rest)
        | '\x7d' :: rest => return (entries, rest)
        | _ => .error .malformed
      | _ => .error .malformed
    | _ => .error .malformed

end

/-- The value that a whole text stands for. Every part takes at least one
character, so the length bounds the number of parts. -/
def read (text : String) : Except Fault Value := do
  let chars := text.toList
  let (value, rest) ← readValue (2 * chars.length + 2) (skipBlanks chars)
  if (skipBlanks rest).isEmpty then
    return value
  else
    throw .malformed

end DesignTokens.Json
