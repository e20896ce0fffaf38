import DesignTokens.Text.Blank
import DesignTokens.Text.Digit

/-!
# Numbers written in text

A numeral is an optional sign, digits with at most one point among or beside them
and an optional exponent, or one of the words for infinity and not-a-number in any
case. The double nearest to the written decimal number is taken.
-/

namespace DesignTokens.Decimal

def naturalOf (digits : List Char) : Nat :=
  digits.foldl (fun total c => 10 * total + (c.toNat - '0'.toNat)) 0

/-- The double nearest to `± coefficient · 10 ^ exponent`. Doubles end below
`10 ^ 309`, and below `10 ^ -324` everything rounds to zero. -/
def floatOfDecimal (negative : Bool) (coefficient : Nat) (exponent : Int) : Float :=
  let leading := exponent + (Nat.toDigits 10 coefficient).length
  let magnitude : Float :=
    if coefficient = 0 ∨ leading < -330 then 0.0
    else if 320 < leading then 1.0 / 0.0
    else if exponent < 0 then Float.ofScientific coefficient true exponent.natAbs
    else Float.ofScientific coefficient false exponent.natAbs
  if negative then -magnitude else magnitude

/-- A leading sign, read as "is negative", and what follows it. -/
def splitSign : List Char → Bool × List Char
  | '-' :: rest => (true, rest)
  | '+' :: rest => (false, rest)
  | chars => (false, chars)

/-- The leading ASCII digits and what follows them. -/
def splitDigits (chars : List Char) : List Char × List Char :=
  (chars.takeWhile Char.isDigit, chars.dropWhile Char.isDigit)

/-- The value of an exponent mark with its digits; no text at all means zero. -/
def exponentOf? : List Char → Option Int
  | [] => some 0
  | mark :: rest =>
    let (negative, digits) := splitSign rest
    if (mark = 'e' ∨ mark = 'E') ∧ digits ≠ [] ∧ digits.all Char.isDigit then
      let size : Int := naturalOf digits
      some (if negative then -size else size)
    else
      none

/-- Words for the doubles without digits. -/
def special? (word : String) : Option Float :=
  if word = "inf" ∨ word = "infinity" then some (1.0 / 0.0)
  else if word = "nan" then some (0.0 / 0.0)
  else none

/-- The double that an ASCII numeral stands for. -/
def numeral? (chars : List Char) : Option Float :=
  let (negative, body) := splitSign chars
  match special? (String.ofList (body.map Char.toLower)) with
  | some x => some (if negative then -x else x)
  | none =>
    let (whole, afterWhole) := splitDigits body
    let (fraction, tail) :=
      match afterWhole with
      | '.' :: rest => splitDigits rest
      | rest => ([], rest)
    if whole.isEmpty && fraction.isEmpty then
      none
    else
      (exponentOf? tail).map fun exponent =>
        floatOfDecimal negative (naturalOf (whole ++ fraction)) (exponent - fraction.length)

/-- Underscores that stand between two digits left out; any other underscore is an
error. -/
def dropGrouping? : List Char → Option (List Char)
  | a :: '_' :: b :: rest =>
    if a.isDigit && b.isDigit then (dropGrouping? (b :: rest)).map (a :: ·) else none
  | '_' :: _ => none
  | a :: rest => (dropGrouping? rest).map (a :: ·)
  | [] => some []

/-- The number that a text channel stands for: digits of any script, grouped by
underscores if need be, between blanks. -/
def channelNumber? (text : String) : Option Float :=
  let ascii := text.toList.all fun c => c.toNat < 0x80
  let plain :=
    if ascii then text.toList
    else text.toList.map fun c =>
      if c.toNat < 0x7F then c else if Text.isBlank c then ' ' else Text.asciiDigit c
  let isEdge (c : Char) : Bool := c == ' ' || (0x09 ≤ c.toNat && c.toNat ≤ 0x0D)
  (dropGrouping? (Text.trimWhere isEdge plain)).bind numeral?

/-- The number that a text opacity stands for: an ASCII numeral between blanks, or
one with single underscores anywhere inside it. -/
def opacityNumber? (text : String) : Option Float :=
  let chars := text.toList
  let isEdge (c : Char) : Bool := Text.isBlank c && !(0x1C ≤ c.toNat && c.toNat ≤ 0x1F)
  match numeral? (Text.trimWhere isEdge chars) with
  | some x => some x
  | none =>
    let doubled := (chars.zip (chars.drop 1)).any fun (a, b) => a == '_' && b == '_'
    if chars.head? = some '_' ∨ chars.getLast? = some '_' ∨ doubled then
      none
    else
      numeral? (chars.filter (· != '_'))

end DesignTokens.Decimal
