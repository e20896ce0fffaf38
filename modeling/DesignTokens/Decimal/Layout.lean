import DesignTokens.Decimal.Shortest

/-!
# The written form of a double

A double is written with the fewest digits that read back. Numbers from `0.0001`
up to `10 ^ 16` are written positionally and keep a fraction of at least one digit;
others get an exponent of at least two digits with its sign.
-/

namespace DesignTokens.Decimal

/-- The words for the values that have no digits. -/
structure SpecialWords where
  infinity : String
  notANumber : String

/-- The words that values have inside other text. -/
def SpecialWords.inline : SpecialWords := ⟨"inf", "nan"⟩

/-- The words that values have in JSON files. -/
def SpecialWords.json : SpecialWords := ⟨"Infinity", "NaN"⟩

/-- The least and the greatest decimal exponent that is written positionally. -/
def positionalExponents : Int × Int := (-4, 15)

def exponentText (exponent : Int) : String :=
  let sign := if exponent < 0 then "-" else "+"
  let digits := toString exponent.natAbs
  "e" ++ sign ++ (if digits.length < 2 then "0" ++ digits else digits)

/-- The digits of `coefficient · 10 ^ exponent` in positional or exponent form. -/
def Scaled.write (d : Scaled) : String :=
  let digits := Nat.toDigits 10 d.coefficient
  let point : Int := digits.length + d.exponent
  let leading := point - 1
  if d.coefficient = 0 then
    "0.0"
  else if leading < positionalExponents.1 ∨ positionalExponents.2 < leading then
    let fraction := digits.drop 1
    String.ofList (digits.take 1 ++ (if fraction.isEmpty then [] else '.' :: fraction)) ++
      exponentText leading
  else if point ≤ 0 then
    "0." ++ String.ofList (List.replicate (-point).toNat '0' ++ digits)
  else
    let whole := digits.take point.toNat ++ List.replicate d.exponent.toNat '0'
    let fraction := digits.drop point.toNat
    String.ofList (whole ++ '.' :: (if fraction.isEmpty then ['0'] else fraction))

/-- The written form of a double. -/
def writeFloat (words : SpecialWords) (x : Float) : String :=
  match Dyadic.ofFloat? x with
  | some d => (if d.negative then "-" else "") ++ (shortest d.significand d.exponent).write
  | none =>
    if x.isNaN then words.notANumber
    else if x < 0 then "-" ++ words.infinity
    else words.infinity

end DesignTokens.Decimal
