/-!
# Doubles as exact binary fractions

Every finite double is a whole number times a power of two. Rounding to a whole
number, asking for a fraction and choosing decimal digits are all decided on that
exact value, in whole-number arithmetic.
-/

namespace DesignTokens.Decimal

/-- The exact value `± significand · 2 ^ exponent` of a finite double. -/
structure Dyadic where
  negative : Bool
  significand : Nat
  exponent : Int
deriving DecidableEq, Repr

namespace Dyadic

/-- The exact value of a double; infinities and NaN have none. -/
def ofFloat? (x : Float) : Option Dyadic :=
  let bits : Nat := x.toBits.toNat
  let field : Nat := bits / Nat.pow 2 52 % Nat.pow 2 11
  let fraction : Nat := bits % Nat.pow 2 52
  let negative := bits / Nat.pow 2 63 == 1
  if field = 2047 then none
  else if field = 0 then some ⟨negative, fraction, -1074⟩
  else some ⟨negative, Nat.pow 2 52 + fraction, (field : Int) - 1075⟩

def signed (d : Dyadic) (magnitude : Nat) : Int :=
  if d.negative then -magnitude else magnitude

/-- The value as a quotient of two natural numbers, sign aside. -/
def quotient (d : Dyadic) : Nat × Nat :=
  (d.significand * Nat.pow 2 d.exponent.toNat, Nat.pow 2 (-d.exponent).toNat)

def isWhole (d : Dyadic) : Bool :=
  d.quotient.1 % d.quotient.2 == 0

/-- The whole part, toward zero. -/
def truncate (d : Dyadic) : Int :=
  d.signed (d.quotient.1 / d.quotient.2)

/-- The nearest whole number; a half goes to the even neighbour. -/
def round (d : Dyadic) : Int :=
  let (top, bottom) := d.quotient
  let whole := top / bottom
  let twice := 2 * (top % bottom)
  let up := bottom < twice || (twice == bottom && whole % 2 == 1)
  d.signed (if up then whole + 1 else whole)

/-- Order of the exact values, negative ones first. -/
def compareInt (d : Dyadic) (n : Int) : Ordering :=
  compare (d.signed d.quotient.1) (n * d.quotient.2)

end Dyadic

/-- Doubles without a fractional part. -/
def isWhole (x : Float) : Bool :=
  (Dyadic.ofFloat? x).any Dyadic.isWhole

/-- The double nearest to a whole number, if that number is in range. -/
def floatOfInt? (n : Int) : Option Float :=
  let x := Float.ofInt n
  if (Dyadic.ofFloat? x).isSome then some x else none

/-- A double and a whole number have the same value. -/
def sameValue (x : Float) (n : Int) : Bool :=
  (Dyadic.ofFloat? x).any fun d => d.compareInt n == .eq

example : (Dyadic.mk false 5 (-1)).round = 2 := by decide

example : (Dyadic.mk true 7 (-1)).round = -4 := by decide

end DesignTokens.Decimal
