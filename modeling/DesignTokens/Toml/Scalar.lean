import DesignTokens.Decimal.Numeral
import DesignTokens.Text.Radix
import DesignTokens.Toml.Item
import DesignTokens.Value.Calendar

/-!
# Scalars of TOML

Quoted texts on one line or over several, with escapes or without; whole numbers to
four bases; doubles; dates and times. Each reader takes the scalar at the start of a
text and gives what follows it.
-/

namespace DesignTokens.Toml

def isSpace (c : Char) : Bool :=
  c = ' ' || c = '\t'

def isGap (c : Char) : Bool :=
  isSpace c || c = '\n'

/-- Control characters other than the tab. -/
def isControl (c : Char) : Bool :=
  (c.toNat < 0x20 && c ≠ '\t') || c.toNat = 0x7F

/-! ## Texts -/

def simpleEscape? : Char → Option Char
  | 'b' => some '\x08'
  | 't' => some '\t'
  | 'n' => some '\n'
  | 'f' => some '\x0c'
  | 'r' => some '\r'
  | '"' => some '"'
  | '\\' => some '\\'
  | _ => none

/-- The character at a code point that digits to base 16 give. -/
def codePoint? (digits : List Char) : Option Char :=
  (Text.numberOfBase? 16 digits).bind fun n =>
    if n.isValidChar then some (Char.ofNat n) else none

/-- A backslash before a line end: nothing but spaces stands between them. -/
def endsLine (chars : List Char) : Bool :=
  (chars.dropWhile isSpace).head? = some '\n'

/-- Text after its opening quotes, last character first, and what follows the closing
ones. Text over `many` lines ends with three quotes. While `skipping`, a backslash at
the end of a line takes away the gap that follows it. -/
def readQuoted (many skipping : Bool) (found : List Char) :
    List Char → Option (List Char × List Char)
  | [] => none
  | c :: rest =>
    if skipping && isGap c then
      readQuoted many true found rest
    else if c = '"' then
      match many, rest with
      | false, _ => some (found, rest)
      | true, '"' :: '"' :: after => some (found, after)
      | true, _ => readQuoted many false (c :: found) rest
    else if c = '\\' then
      match rest with
      | 'u' :: d1 :: d2 :: d3 :: d4 :: after =>
        match codePoint? [d1, d2, d3, d4] with
        | some point => readQuoted many false (point :: found) after
        | none => none
      | 'U' :: d1 :: d2 :: d3 :: d4 :: d5 :: d6 :: d7 :: d8 :: after =>
        match codePoint? [d1, d2, d3, d4, d5, d6, d7, d8] with
        | some point => readQuoted many false (point :: found) after
        | none => none
      | mark :: after =>
        if many && isGap mark then
          if endsLine (mark :: after) then readQuoted many true found after else none
        else
          match simpleEscape? mark with
          | some escaped => readQuoted many false (escaped :: found) after
          | none => none
      | [] => none
    else if isControl c && !(many && c = '\n') then
      none
    else
      readQuoted many false (c :: found) rest

/-- Text without escapes over many lines, as `readQuoted` gives it. -/
def readVerbatim (found : List Char) : List Char → Option (List Char × List Char)
  | [] => none
  | '\'' :: '\'' :: '\'' :: after => some (found, after)
  | c :: rest => if isControl c && c ≠ '\n' then none else readVerbatim (c :: found) rest

/-- Text without escapes on one line. -/
def readVerbatimLine (chars : List Char) : Option (String × List Char) :=
  let content := chars.takeWhile (· ≠ '\'')
  match chars.dropWhile (· ≠ '\'') with
  | _ :: after => if content.any isControl then none else some (String.ofList content, after)
  | [] => none

def readQuotedLine (chars : List Char) : Option (String × List Char) :=
  (readQuoted false false [] chars).map fun (found, after) =>
    (String.ofList found.reverse, after)

/-- Up to two more quotes at the end of text over many lines belong to it. -/
def closeMany (quote : Char) (found after : List Char) : String × List Char :=
  let extra := (after.take 2).takeWhile (· = quote)
  (String.ofList (found.reverse ++ extra), after.drop extra.length)

/-- Text over many lines begins on the line of its quotes or on the next. -/
def dropFirstBreak : List Char → List Char
  | '\n' :: rest => rest
  | chars => chars

/-- Quoted text at the start of a text. -/
def readText : List Char → Option (String × List Char)
  | '"' :: '"' :: '"' :: rest =>
    (readQuoted true false [] (dropFirstBreak rest)).map fun (found, after) =>
      closeMany '"' found after
  | '\'' :: '\'' :: '\'' :: rest =>
    (readVerbatim [] (dropFirstBreak rest)).map fun (found, after) => closeMany '\'' found after
  | '"' :: rest => readQuotedLine rest
  | '\'' :: rest => readVerbatimLine rest
  | _ => none

/-! ## Numbers -/

/-- The digits after a first one and what follows them. An underscore may stand before
a digit. -/
def splitGrouped (isDigit : Char → Bool) : List Char → List Char × List Char
  | '_' :: c :: rest =>
    if isDigit c then
      let (digits, after) := splitGrouped isDigit rest
      (c :: digits, after)
    else
      ([], '_' :: c :: rest)
  | c :: rest =>
    if isDigit c then
      let (digits, after) := splitGrouped isDigit rest
      (c :: digits, after)
    else
      ([], c :: rest)
  | [] => ([], [])

/-- Grouped digits, of which there must be one. -/
def digits? (isDigit : Char → Bool) : List Char → Option (List Char × List Char)
  | c :: rest =>
    if isDigit c then
      let (digits, after) := splitGrouped isDigit rest
      some (c :: digits, after)
    else
      none
  | [] => none

/-- A whole number to base 2, 8 or 16, after its zero. -/
def basedNumber? : List Char → Option (Item × List Char)
  | mark :: rest => do
    let base ← if mark = 'x' then some 16 else if mark = 'o' then some 8
      else if mark = 'b' then some 2 else none
    let (digits, after) ← digits? (fun c => (Text.digitOfBase? base c).isSome) rest
    return (.int (← Text.numberOfBase? base digits), after)
  | [] => none

/-- The digits of a fraction, if a point with a digit comes next. -/
def splitFraction (chars : List Char) : Option (List Char × List Char) :=
  match chars with
  | '.' :: rest => digits? Char.isDigit rest
  | _ => none

/-- The exponent, if a mark with a digit comes next. -/
def splitExponent (chars : List Char) : Option (Int × List Char) :=
  match chars with
  | mark :: rest =>
    if mark = 'e' ∨ mark = 'E' then
      let (negative, afterSign) := Decimal.splitSign rest
      (digits? Char.isDigit afterSign).map fun (digits, after) =>
        let size : Int := Decimal.naturalOf digits
        (if negative then -size else size, after)
    else
      none
  | [] => none

/-- The whole part of a decimal number: zero alone or digits without a leading zero. -/
def wholePart? : List Char → Option (List Char × List Char)
  | '0' :: rest => some (['0'], rest)
  | chars => digits? Char.isDigit chars

/-- A decimal number. A fraction or an exponent makes it a double. -/
def decimal? (chars : List Char) : Option (Except Fault Item × List Char) := do
  let (negative, body) := Decimal.splitSign chars
  let (whole, afterWhole) ← wholePart? body
  let fraction := splitFraction afterWhole
  let afterFraction := (fraction.map Prod.snd).getD afterWhole
  let places := (fraction.map Prod.fst).getD []
  let exponent := splitExponent afterFraction
  let after := (exponent.map Prod.snd).getD afterFraction
  if fraction.isSome || exponent.isSome then
    let power := (exponent.map Prod.fst).getD 0
    return (.ok (.float (Decimal.floatOfDecimal negative (Decimal.naturalOf (whole ++ places))
      (power - places.length))), after)
  else if Text.digitLimit < whole.length then
    return (.error .oversizedNumber, after)
  else
    let size : Int := Decimal.naturalOf whole
    return (.ok (.int (if negative then -size else size)), after)

/-- Words that stand for a scalar. -/
def words : List (String × Item) :=
  [("true", .flag true), ("false", .flag false), ("inf", .float (1.0 / 0.0)),
    ("+inf", .float (1.0 / 0.0)), ("-inf", .float (-1.0 / 0.0)), ("nan", .float (0.0 / 0.0)),
    ("+nan", .float (0.0 / 0.0)), ("-nan", .float (0.0 / 0.0))]

def readWord? (chars : List Char) : Option (Item × List Char) :=
  words.findSome? fun (word, item) =>
    if word.toList.isPrefixOf chars then some (item, chars.drop word.length) else none

/-! ## Dates and times -/

/-- A number of exactly `width` digits from `low` to `high`. -/
def field? (width low high : Nat) (chars : List Char) : Option (Nat × List Char) :=
  let digits := chars.take width
  let n := Decimal.naturalOf digits
  if digits.length = width ∧ digits.all Char.isDigit ∧ low ≤ n ∧ n ≤ high then
    some (n, chars.drop width)
  else
    none

/-- What follows one character. -/
def after? (c : Char) : List Char → Option (List Char)
  | [] => none
  | d :: rest => if d = c then some rest else none

/-- What follows a time of day. -/
def afterClock? (chars : List Char) : Option (List Char) := do
  let (_, rest) ← field? 2 0 23 chars
  let (_, rest) ← field? 2 0 59 (← after? ':' rest)
  let (_, rest) ← field? 2 0 59 (← after? ':' rest)
  match rest with
  | '.' :: c :: more => return if c.isDigit then more.dropWhile Char.isDigit else rest
  | rest => return rest

/-- What follows an offset from universal time, if there is one. -/
def afterOffset (chars : List Char) : List Char :=
  let numeric (rest : List Char) : Option (List Char) := do
    let (_, rest) ← field? 2 0 23 rest
    let (_, rest) ← field? 2 0 59 (← after? ':' rest)
    return rest
  match chars with
  | c :: rest =>
    if c = 'Z' ∨ c = 'z' then rest
    else if c = '+' ∨ c = '-' then (numeric rest).getD chars
    else chars
  | [] => []

/-- A date and what follows it. -/
def date? (chars : List Char) : Option (Date × List Char) := do
  let (year, rest) ← field? 4 0 9999 chars
  let (month, rest) ← field? 2 1 12 (← after? '-' rest)
  let (day, rest) ← field? 2 1 31 (← after? '-' rest)
  return (⟨year, month, day⟩, rest)

/-- What follows the time of day behind a date, if there is one. -/
def afterTime (chars : List Char) : List Char :=
  match chars with
  | c :: rest =>
    if c = 'T' ∨ c = 't' ∨ c = ' ' then ((afterClock? rest).map afterOffset).getD chars
    else chars
  | [] => []

/-- The part of `chars` before its ending `after`. -/
def written (chars after : List Char) : String :=
  String.ofList (chars.take (chars.length - after.length))

/-- A date with or without a time, or a time of day. -/
def moment? (chars : List Char) : Option (Except Fault Item × List Char) :=
  match date? chars with
  | some (date, rest) =>
    let after := afterTime rest
    some (if date.isValid then .ok (.moment (written chars after)) else .error .malformed, after)
  | none => (afterClock? chars).map fun after => (.ok (.moment (written chars after)), after)

/-- A scalar other than text. -/
def readScalar (chars : List Char) : Except Fault (Item × List Char) :=
  let based := match chars with
    | '0' :: rest => basedNumber? rest
    | _ => none
  match moment? chars, based, decimal? chars, readWord? chars with
  | some (item, after), _, _, _ => item.map (·, after)
  | none, some found, _, _ => .ok found
  | none, none, some (item, after), _ => item.map (·, after)
  | none, none, none, some found => .ok found
  | none, none, none, none => .error .malformed

end DesignTokens.Toml
