import DesignTokens.Decimal.Numeral
import DesignTokens.Value.Data
import DesignTokens.Yaml.Node

/-!
# Values of YAML scalars

Plain text says by its form what it is: a flag, a number, a date or nothing; all else
is text. Whole numbers may be written to base 2, 8, 16 and, with colons, 60. A tag
takes the place of the form.
-/

namespace DesignTokens.Yaml

/-- The kinds of node that plain data can express. -/
inductive Kind where
  | null
  | bool
  | int
  | float
  | text
  | binary
  | timestamp
  | sequence
  | mapping
  | set
  | pairs
  | merge
  | value
deriving DecidableEq, Repr

/-- Where the tags of the standard kinds begin. -/
def tagStart : String := "tag:yaml.org,2002:"

def kinds : List (String × Kind) :=
  [("null", .null), ("bool", .bool), ("int", .int), ("float", .float), ("str", .text),
    ("binary", .binary), ("timestamp", .timestamp), ("seq", .sequence), ("map", .mapping),
    ("set", .set), ("omap", .pairs), ("pairs", .pairs), ("merge", .merge), ("value", .value)]

/-- The kind that a tag names, if it is one of the standard kinds. -/
def Kind.ofTag? (tag : String) : Option Kind :=
  (kinds.find? fun entry => tagStart ++ entry.1 == tag).map Prod.snd

/-! ## Forms of plain text -/

def trueWords : List String := ["yes", "true", "on"]

def falseWords : List String := ["no", "false", "off"]

/-- A word in lower case, capitalized or in capitals. -/
def spellings (word : String) : List String :=
  [word, word.capitalize, String.ofList (word.toList.map Char.toUpper)]

def isFlagForm (text : String) : Bool :=
  ((trueWords ++ falseWords).flatMap spellings).contains text

def isNullForm (text : String) : Bool :=
  (["", "~"] ++ spellings "null").contains text

def dropSign : List Char → List Char
  | '-' :: rest => rest
  | '+' :: rest => rest
  | chars => chars

/-- A digit, then digits and underscores. -/
def isGrouped (chars : List Char) : Bool :=
  chars.head?.any Char.isDigit && chars.all fun c => c.isDigit || c = '_'

/-- One digit or two below 60. -/
def isSixtieth : List Char → Bool
  | [a] => a.isDigit
  | [a, b] => '0' ≤ a && a ≤ '5' && b.isDigit
  | _ => false

def isHexOrGap (c : Char) : Bool :=
  c = '_' || (Text.hexValue? c).isSome

def isIntForm (chars : List Char) : Bool :=
  match dropSign chars with
  | '0' :: 'b' :: digits => !digits.isEmpty && digits.all fun c => c = '0' || c = '1' || c = '_'
  | '0' :: 'x' :: digits => !digits.isEmpty && digits.all isHexOrGap
  | '0' :: digits => digits.all fun c => ('0' ≤ c && c ≤ '7') || c = '_'
  | body =>
    match Text.stretches (· == ':') body with
    | first :: others => isGrouped first && others.all isSixtieth
    | [] => false

/-- Nothing, or an exponent with its sign. -/
def isExponent : List Char → Bool
  | [] => true
  | mark :: sign :: digits =>
    (mark = 'e' || mark = 'E') && (sign = '-' || sign = '+') && !digits.isEmpty &&
      digits.all Char.isDigit
  | _ => false

def isDigitOrGap (c : Char) : Bool :=
  c.isDigit || c = '_'

/-- The text before and after the first point. -/
def splitPoint? (chars : List Char) : Option (List Char × List Char) :=
  match chars.dropWhile (· ≠ '.') with
  | '.' :: fraction => some (chars.takeWhile (· ≠ '.'), fraction)
  | _ => none

def isFloatForm (chars : List Char) : Bool :=
  let body := dropSign chars
  let special := [".inf", ".Inf", ".INF"].contains (String.ofList body) ||
    [".nan", ".NaN", ".NAN"].contains (String.ofList chars)
  let decimal := match splitPoint? body with
    | none => false
    | some ([], fraction) =>
      body == chars && fraction.head?.any Char.isDigit &&
        isExponent (fraction.dropWhile isDigitOrGap)
    | some (whole, fraction) =>
      match Text.stretches (· == ':') whole with
      | [digits] => isGrouped digits && isExponent (fraction.dropWhile isDigitOrGap)
      | first :: others =>
        isGrouped first && others.all isSixtieth && fraction.all isDigitOrGap
      | [] => false
  special || decimal

/-! ## Dates and times -/

/-- One or two digits, or exactly two. -/
def takeTwo? (shortest : Nat) (chars : List Char) : Option (Nat × List Char) :=
  let digits := (chars.take 2).takeWhile Char.isDigit
  if shortest ≤ digits.length then some (Decimal.naturalOf digits, chars.drop digits.length)
  else none

/-- What follows a mark. -/
def after? (mark : Char) : List Char → Option (List Char)
  | c :: rest => if c = mark then some rest else none
  | [] => none

/-- A zone: the letter for universal time, or a signed offset in minutes. -/
def zone? : List Char → Option (Option Int)
  | [] => some none
  | ['Z'] => some (some 0)
  | sign :: rest =>
    if sign = '+' ∨ sign = '-' then do
      let (hours, afterHours) ← takeTwo? 1 rest
      let minutes ← match afterHours with
        | [] => some 0
        | ':' :: digits => do
          let (minutes, tail) ← takeTwo? 2 digits
          if tail.isEmpty then some minutes else none
        | _ => none
      let offset : Int := 60 * hours + minutes
      return some (if sign = '-' then -offset else offset)
    else
      none

/-- A time of day: hour, minute, second, microsecond and zone. -/
structure Clock where
  hour : Nat
  minute : Nat
  second : Nat
  microsecond : Nat
  offset : Option Int
deriving DecidableEq, Repr

/-- The first six digits of a fraction as microseconds. -/
def microseconds (digits : List Char) : Nat :=
  Decimal.naturalOf ((digits ++ List.replicate 6 '0').take 6)

def clock? (chars : List Char) : Option Clock := do
  let (hour, rest) ← takeTwo? 1 chars
  let (minute, rest) ← takeTwo? 2 (← after? ':' rest)
  let (second, rest) ← takeTwo? 2 (← after? ':' rest)
  let (fraction, rest) := match rest with
    | '.' :: digits => Decimal.splitDigits digits
    | rest => ([], rest)
  let offset ← zone? (rest.dropWhile isSpace)
  if rest.all isSpace && !rest.isEmpty then none
  return ⟨hour, minute, second, microseconds fraction, offset⟩

/-- A date and the time after it, if there is one. -/
def timestamp? (chars : List Char) : Option (Date × Option Clock) := do
  let year := chars.take 4
  if year.length < 4 || !year.all Char.isDigit then none
  let (month, rest) ← takeTwo? 1 (← after? '-' (chars.drop 4))
  let (day, rest) ← takeTwo? 1 (← after? '-' rest)
  let date : Date := ⟨Decimal.naturalOf year, month, day⟩
  match rest with
  | [] => return (date, none)
  | c :: tail =>
    if c = 'T' ∨ c = 't' then return (date, some (← clock? tail))
    else if isSpace c then return (date, some (← clock? (tail.dropWhile isSpace)))
    else none

/-- A date alone is written with all its digits. -/
def isTimestampForm (chars : List Char) : Bool :=
  match timestamp? chars with
  | some (_, none) => chars.length = 10
  | some (_, some _) => true
  | none => false

/-- The kind of plain text. -/
def Kind.ofText (text : String) : Option Kind :=
  let chars := text.toList
  if isFlagForm text then some .bool
  else if isFloatForm chars then some .float
  else if isIntForm chars then some .int
  else if text = "<<" then some .merge
  else if isNullForm text then some .null
  else if isTimestampForm chars then some .timestamp
  else if text = "=" then some .value
  else if text = "!" ∨ text = "&" ∨ text = "*" then none
  else some .text

/-! ## Values -/

def notOfTag {α : Type} (tag : String) : Except Fault α :=
  .error (.scalar (.taggedScalar tag))

/-- Digits to a base, none left over. -/
def natural? (base : Nat) (digits : List Char) : Option Nat :=
  if digits.isEmpty then none
  else Text.numberOfBase? base digits

/-- Parts to base 60, the last one counting once. -/
def sixtieths? (parts : List (List Char)) : Option Nat :=
  parts.foldlM (fun total part => (natural? 10 part).map (60 * total + ·)) 0

def magnitude? (digits : List Char) : Option Nat :=
  match digits with
  | ['0'] => some 0
  | '0' :: 'b' :: rest => natural? 2 rest
  | '0' :: 'x' :: rest => natural? 16 rest
  | '0' :: rest => natural? 8 ('0' :: rest)
  | digits =>
    if ':' ∈ digits then sixtieths? (Text.stretches (· == ':') digits)
    else if Text.digitLimit < digits.length then none
    else natural? 10 digits

def wholeOf (text : String) : Except Fault Scalar :=
  let digits := text.toList.filter (· != '_')
  match magnitude? (dropSign digits) with
  | some n => .ok (.int (if digits.head? = some '-' then -(n : Int) else n))
  | none => notOfTag "int"

/-- Parts to base 60 as doubles, added from the last one on. -/
def sixtiethsFloat? (parts : List (List Char)) : Option Float := do
  let numbers ← parts.reverse.mapM Decimal.numeral?
  return (numbers.foldl (fun (total, unit) x => (total + x * unit, unit * 60.0))
    ((0.0 : Float), (1.0 : Float))).1

def floatOf (text : String) : Except Fault Scalar :=
  let digits := (text.toList.filter (· != '_')).map Char.toLower
  let body := dropSign digits
  let size :=
    if body = ".inf".toList then some (1.0 / 0.0)
    else if body = ".nan".toList then some (0.0 / 0.0)
    else if ':' ∈ body then sixtiethsFloat? (Text.stretches (· == ':') body)
    else Decimal.numeral? body
  match size with
  | some x => .ok (.float (if digits.head? = some '-' then -x else x))
  | none => notOfTag "float"

def flagOf (text : String) : Except Fault Scalar :=
  let word := String.ofList (text.toList.map Char.toLower)
  if word ∈ trueWords then .ok (.bool true)
  else if word ∈ falseWords then .ok (.bool false)
  else .error (.scalar (.missingMember word))

def isClock (c : Clock) : Bool :=
  c.hour < 24 && c.minute < 60 && c.second < 60 && c.offset.all fun n => n.natAbs < 1440

def timestampOf (text : String) : Except Fault Scalar :=
  match timestamp? text.toList with
  | some (date, none) => if date.isValid then .ok (.date date) else notOfTag "timestamp"
  | some (date, some clock) =>
    if date.isValid && isClock clock then
      .ok (.moment ⟨date, clock.hour, clock.minute, clock.second, clock.microsecond,
        clock.offset⟩)
    else
      notOfTag "timestamp"
  | none => .error (.scalar .noMembers)

def base64Digits : List Char :=
  "ABCDEFGHIJKLMNOPQRSTUVWXYZabcdefghijklmnopqrstuvwxyz0123456789+/".toList

/-- The octets that digits to base 64 stand for, four digits for three octets. -/
def octetsOf : List Nat → List UInt8
  | a :: b :: c :: d :: rest =>
    (4 * a + b / 16).toUInt8 :: (16 * (b % 16) + c / 4).toUInt8 ::
      (64 * (c % 4) + d).toUInt8 :: octetsOf rest
  | [a, b, c] => [(4 * a + b / 16).toUInt8, (16 * (b % 16) + c / 4).toUInt8]
  | [a, b] => [(4 * a + b / 16).toUInt8]
  | _ => []

def binaryOf (text : String) : Except Fault Scalar :=
  let chars := text.toList
  let digits := (chars.takeWhile (· ≠ '=')).filterMap base64Digits.idxOf?
  let padding := (chars.dropWhile (· ≠ '=')).countP (· = '=')
  let missing := (4 - digits.length % 4) % 4
  if chars.all (fun c => c.toNat < 0x80) && missing ≠ 3 && missing ≤ padding then
    .ok (.octets (octetsOf digits))
  else
    .error .malformed

/-- The value of a scalar of some kind. -/
def scalarOf (kind : Kind) (text : String) : Except Fault Scalar :=
  match kind with
  | .null => .ok .null
  | .bool => flagOf text
  | .int => wholeOf text
  | .float => floatOf text
  | .text => .ok (.text text)
  | .binary => binaryOf text
  | .timestamp => timestampOf text
  | _ => .error .malformed

end DesignTokens.Yaml
