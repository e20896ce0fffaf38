import DesignTokens.Decimal.Dyadic

/-!
# The fewest digits that read back

A double stands for the interval of real numbers that round to it; the ends of the
interval belong to it exactly when the significand is even. Among the decimal
numbers in that interval, written text uses one with the fewest digits and, among
those, the one nearest to the double. An exact tie goes to the even digit.
-/

namespace DesignTokens.Decimal

/-- The decimal number `coefficient · 10 ^ exponent`. -/
structure Scaled where
  coefficient : Nat
  exponent : Int
deriving DecidableEq, Repr

/-- The numbers that round to one double, all over the common denominator
`unit`. -/
structure RoundingInterval where
  low : Nat
  value : Nat
  high : Nat
  unit : Nat
  closed : Bool

/-- The rounding interval of `significand · 2 ^ exponent`. Below a power of two
the doubles lie twice as close. -/
def RoundingInterval.of (significand : Nat) (exponent : Int) : RoundingInterval :=
  let scale := Nat.pow 2 (exponent - 2).toNat
  let below := if significand = Nat.pow 2 52 ∧ -1074 < exponent then 1 else 2
  { low := (4 * significand - below) * scale
    value := 4 * significand * scale
    high := (4 * significand + 2) * scale
    unit := Nat.pow 2 (2 - exponent).toNat
    closed := significand % 2 == 0 }

/-- The multiple of `10 ^ exponent` in the interval that is nearest to its value. -/
def RoundingInterval.nearest? (i : RoundingInterval) (exponent : Int) : Option Nat :=
  let up := Nat.pow 10 (-exponent).toNat
  let step := i.unit * Nat.pow 10 exponent.toNat
  let inside (n : Nat) : Bool :=
    if i.closed then
      i.low * up ≤ n * step && n * step ≤ i.high * up
    else
      i.low * up < n * step && n * step < i.high * up
  let lower := i.value * up / step
  let toLower := i.value * up - lower * step
  let toUpper := (lower + 1) * step - i.value * up
  if inside lower && inside (lower + 1) then
    if toLower < toUpper then some lower
    else if toUpper < toLower then some (lower + 1)
    else some (if lower % 2 = 0 then lower else lower + 1)
  else if inside lower then some lower
  else if inside (lower + 1) then some (lower + 1)
  else none

def decimalLength (n : Nat) : Nat :=
  (Nat.toDigits 10 n).length

/-- The number `k` with `10 ^ (k - 1) ≤ value < 10 ^ k`. -/
def RoundingInterval.magnitude (i : RoundingInterval) : Int :=
  if i.unit ≤ i.value then
    decimalLength (i.value / i.unit)
  else
    let length := decimalLength (i.unit / i.value)
    if i.value * Nat.pow 10 (length - 1) = i.unit then 2 - (length : Int) else 1 - (length : Int)

/-- The same number without trailing zeros in the coefficient. -/
def Scaled.trim (d : Scaled) : Scaled :=
  go (decimalLength d.coefficient) d
where
  go : Nat → Scaled → Scaled
    | 0, d => d
    | budget + 1, d =>
      if d.coefficient ≠ 0 ∧ d.coefficient % 10 = 0 then
        go budget ⟨d.coefficient / 10, d.exponent + 1⟩
      else
        d

/-- The decimal number of fewest digits that rounds to `significand · 2 ^ exponent`;
seventeen digits always suffice. -/
def shortest (significand : Nat) (exponent : Int) : Scaled :=
  if significand = 0 then
    ⟨0, 0⟩
  else
    let interval := RoundingInterval.of significand exponent
    let magnitude := interval.magnitude
    let found := (List.range 17).findSome? fun (digits : Nat) =>
      let exponent : Int := magnitude - (digits + 1)
      (interval.nearest? exponent).map (Scaled.mk · exponent)
    (found.getD ⟨0, 0⟩).trim

end DesignTokens.Decimal
