import Mathlib
import DesignTokens.Decimal.Numeral

/-!
# Numerals without a sign

The double nearest to a numeral without a sign is zero, a positive number or positive
infinity, never a negative number and never NaN. The bits of such doubles are those up to
the bits of infinity, so they are told by their bits alone.
-/

namespace DesignTokens.Decimal

open Float.Model Float.Model.UnpackedFloat

/-- The bits of positive infinity. -/
def infinityBits : Nat := 2047 * 2 ^ 52

/-- A double that is neither negative nor NaN, and not negative zero either. -/
def IsUnsigned (x : Float) : Prop :=
  x.toBits.toNat ≤ infinityBits

instance (x : Float) : Decidable (IsUnsigned x) :=
  inferInstanceAs (Decidable (x.toBits.toNat ≤ infinityBits))

/-! ## The parts of a double -/

/-- Zero, a finite number or infinity, each with a positive sign. -/
inductive Unsigned : UnpackedFloat → Prop
  | infinity : Unsigned (.infinity .positive)
  | zero : Unsigned (.zero .positive)
  | finite {mantissa : Nat} {exponent : Int} (hpos : 0 < mantissa) :
      Unsigned (.finite .positive mantissa exponent hpos)

theorem toNat_append {v w : Nat} (high : BitVec v) (low : BitVec w) :
    (high ++ low).toNat = high.toNat * 2 ^ w + low.toNat := by
  rw [BitVec.toNat_append, ← Nat.shiftLeft_add_eq_or_of_lt low.isLt, Nat.shiftLeft_eq]

theorem toNat_packComponents_positive (exponent : BitVec 11) (mantissa : BitVec 52) :
    (packComponents .binary64 .positive exponent mantissa).toNat =
      exponent.toNat * 2 ^ 52 + mantissa.toNat := by
  rw [packComponents, toNat_append, toNat_append]
  simp [Sign.toBitVec]

theorem toNat_pack_le {unpacked : UnpackedFloat} (hunsigned : Unsigned unpacked) :
    (UnpackedFloat.pack .binary64 unpacked).toNat ≤ infinityBits := by
  have hinfinity : (packedInfinity .binary64 .positive).toNat ≤ infinityBits := by decide
  cases hunsigned with
  | infinity => exact hinfinity
  | zero => decide
  | @finite mantissa exponent hpos =>
      rw [UnpackedFloat.pack]
      dsimp only
      split
      · exact hinfinity
      next hfinite =>
      split
      · rw [toNat_packComponents_positive]
        have hmantissa := (BitVec.ofNat 52 mantissa).isLt
        simp only [infinityBits, BitVec.toNat_ofNat] at hfinite hmantissa ⊢
        omega
      · rw [toNat_packComponents_positive]
        have hmantissa := (BitVec.ofNat 52 mantissa).isLt
        simp only [infinityBits, BitVec.toNat_ofNat] at hfinite hmantissa ⊢
        omega

theorem toNat_unpackSign (bits : BitVec 64) :
    (@unpackSign .binary64 bits).toNat = bits.toNat / 2 ^ 63 := by
  have hbits := bits.isLt
  simp only [unpackSign, BitVec.toNat_cast, BitVec.extractLsb_toNat, Nat.shiftRight_eq_div_pow]
  omega

theorem toNat_unpackExponent (bits : BitVec 64) :
    (@unpackExponent .binary64 bits).toNat = bits.toNat / 2 ^ 52 % 2 ^ 11 := by
  simp [unpackExponent, Nat.shiftRight_eq_div_pow]

theorem toNat_unpackMantissa (bits : BitVec 64) :
    (@unpackMantissa .binary64 bits).toNat = bits.toNat % 2 ^ 52 := by
  simp [unpackMantissa]

theorem unsigned_unpack {bits : BitVec 64} (hbits : bits.toNat ≤ infinityBits) :
    Unsigned (UnpackedFloat.unpack .binary64 bits) := by
  have hsign : @unpackSign .binary64 bits = 0#1 := by
    apply BitVec.eq_of_toNat_eq
    rw [toNat_unpackSign]
    simp only [infinityBits] at hbits
    simp only [BitVec.toNat_ofNat]
    omega
  rw [UnpackedFloat.unpack]
  simp only [hsign, Sign.ofBitVec]
  split
  · next hexponent =>
      have hmantissa : @unpackMantissa .binary64 bits = 0#52 := by
        apply BitVec.eq_of_toNat_eq
        have hfield := congrArg BitVec.toNat hexponent
        rw [toNat_unpackExponent] at hfield
        rw [toNat_unpackMantissa]
        simp only [infinityBits] at hbits
        simp at hfield ⊢
        omega
      rw [if_pos hmantissa]
      exact .infinity
  · split
    · split
      · exact .zero
      · exact .finite _
    · exact .finite _

/-! ## Arithmetic without a sign -/

theorem unsigned_roundWithAccuracy (mantissa : Nat) (exponent : Int) (accuracy : Accuracy) :
    Unsigned (roundWithAccuracy .binary64 .positive mantissa exponent accuracy) := by
  rw [roundWithAccuracy]
  dsimp only
  split
  · exact .zero
  · exact .finite _

/-- A product with a positive number has no sign. -/
theorem unsigned_mul {first : UnpackedFloat} (hfirst : Unsigned first) {mantissa : Nat}
    {exponent : Int} (hpos : 0 < mantissa) :
    Unsigned (UnpackedFloat.mul .binary64 first (.finite .positive mantissa exponent hpos)) := by
  cases hfirst with
  | infinity => exact .infinity
  | zero => exact .zero
  | finite => exact unsigned_roundWithAccuracy ..

/-- A quotient by a positive number has no sign. -/
theorem unsigned_div {first : UnpackedFloat} (hfirst : Unsigned first) {mantissa : Nat}
    {exponent : Int} (hpos : 0 < mantissa) :
    Unsigned (UnpackedFloat.div .binary64 first (.finite .positive mantissa exponent hpos)) := by
  cases hfirst with
  | infinity => exact .infinity
  | zero => exact .zero
  | finite => exact unsigned_roundWithAccuracy ..

theorem unsigned_ofNat (n : Nat) : Unsigned (UnpackedFloat.ofNat .binary64 n) := by
  rw [UnpackedFloat.ofNat, UnpackedFloat.ofInt, UnpackedFloat.normalize]
  split
  · next hnegative =>
      rw [Int.compare_eq_lt] at hnegative
      omega
  · exact .zero
  · exact unsigned_roundWithAccuracy ..

theorem unsigned_ofScientific (coefficient : Nat) (exponent : Int) :
    Unsigned (UnpackedFloat.ofScientific .binary64 coefficient exponent) := by
  rw [UnpackedFloat.ofScientific]
  split
  · exact .zero
  split
  · exact .infinity
  split
  · exact .zero
  split
  · exact unsigned_mul (.finite _) _
  · exact unsigned_div (.finite _) _

theorem isUnsigned_pack {unpacked : UnpackedFloat} (hunsigned : Unsigned unpacked) :
    IsUnsigned ⟨Float.Model.pack unpacked⟩ :=
  toNat_pack_le hunsigned

theorem unsigned_of_isUnsigned {x : Float} (hx : IsUnsigned x) : Unsigned x.toModel.unpack :=
  unsigned_unpack hx

/-- The double is a positive number. -/
def isPositive (x : Float) : Bool :=
  match x.toModel.unpack with
  | .finite .positive _ _ _ => true
  | _ => false

theorem isPositive_powerOfTen (exponent : Fin Float.exactlyRepresentablePowersOfTen.size) :
    isPositive Float.exactlyRepresentablePowersOfTen[exponent] := by
  revert exponent
  decide +kernel

theorem exists_eq_of_isPositive {x : Float} (hx : isPositive x) :
    ∃ mantissa exponent hpos, x.toModel.unpack = .finite .positive mantissa exponent hpos := by
  rw [isPositive] at hx
  split at hx
  · next mantissa exponent hpos heq => exact ⟨mantissa, exponent, hpos, heq⟩
  · cases hx

theorem isUnsigned_mul {x y : Float} (hx : IsUnsigned x) (hy : isPositive y) :
    IsUnsigned (x * y) := by
  obtain ⟨mantissa, exponent, hpos, heq⟩ := exists_eq_of_isPositive hy
  have hproduct := @unsigned_mul _ (unsigned_of_isUnsigned hx) _ exponent hpos
  rw [← heq] at hproduct
  exact isUnsigned_pack hproduct

theorem isUnsigned_div {x y : Float} (hx : IsUnsigned x) (hy : isPositive y) :
    IsUnsigned (x / y) := by
  obtain ⟨mantissa, exponent, hpos, heq⟩ := exists_eq_of_isPositive hy
  have hquotient := @unsigned_div _ (unsigned_of_isUnsigned hx) _ exponent hpos
  rw [← heq] at hquotient
  exact isUnsigned_pack hquotient

/-! ## Numerals -/

theorem isUnsigned_ofScientific (coefficient : Nat) (negative : Bool) (exponent : Nat) :
    IsUnsigned (Float.ofScientific coefficient negative exponent) := by
  rw [Float.ofScientific]
  split
  · next hsmall =>
      have hcoefficient : IsUnsigned coefficient.toUInt64.toFloat :=
        isUnsigned_pack (unsigned_ofNat _)
      have hpower := isPositive_powerOfTen ⟨exponent, Nat.lt_succ_of_le hsmall.2⟩
      dsimp only
      split
      · exact isUnsigned_div hcoefficient hpower
      · exact isUnsigned_mul hcoefficient hpower
  · exact isUnsigned_pack (unsigned_ofScientific ..)

theorem isUnsigned_floatOfDecimal (coefficient : Nat) (exponent : Int) :
    IsUnsigned (floatOfDecimal false coefficient exponent) := by
  rw [floatOfDecimal, if_neg Bool.false_ne_true]
  split
  · exact isUnsigned_ofScientific ..
  split
  · decide
  split
  · exact isUnsigned_ofScientific ..
  · exact isUnsigned_ofScientific ..

theorem splitSign_of_isDigit {c : Char} (hdigit : c.isDigit) (rest : List Char) :
    splitSign (c :: rest) = (false, c :: rest) := by
  rw [splitSign]
  · rintro _ ⟨⟩
    exact absurd hdigit (by decide)
  · rintro _ ⟨⟩
    exact absurd hdigit (by decide)

theorem toLower_of_isDigit {c : Char} (hdigit : c.isDigit) : c.toLower = c := by
  rw [Char.isDigit, Bool.and_eq_true, decide_eq_true_eq, decide_eq_true_eq] at hdigit
  rw [Char.toLower, dif_neg]
  rintro ⟨hlow, -⟩
  exact absurd (UInt32.le_trans hlow hdigit.2) (by decide)

theorem special?_of_isDigit {c : Char} (hdigit : c.isDigit) (rest : List Char) :
    special? (String.ofList ((c :: rest).map Char.toLower)) = none := by
  have hne : ∀ word : String, word.toList.head?.any Char.isDigit = false →
      String.ofList ((c :: rest).map Char.toLower) ≠ word := by
    rintro _ hword rfl
    simp [toLower_of_isDigit hdigit, hdigit] at hword
  rw [special?, if_neg (not_or_intro (hne "inf" rfl) (hne "infinity" rfl)),
    if_neg (hne "nan" rfl)]

/-- A numeral that begins with a digit stands for a double without a sign. -/
theorem isUnsigned_of_numeral? {c : Char} (hdigit : c.isDigit) {rest : List Char} {x : Float}
    (hx : numeral? (c :: rest) = some x) : IsUnsigned x := by
  have hread : ∀ {isEmpty : Bool} {coefficient : Nat} {places : Int} {exponent? : Option Int},
      (if isEmpty then none else exponent?.map fun exponent =>
        floatOfDecimal false coefficient (exponent - places)) = some x → IsUnsigned x := by
    intro isEmpty coefficient places exponent? hsome
    split at hsome
    · cases hsome
    · obtain ⟨exponent, -, rfl⟩ := Option.map_eq_some_iff.1 hsome
      exact isUnsigned_floatOfDecimal ..
  rw [numeral?, splitSign_of_isDigit hdigit] at hx
  simp only [special?_of_isDigit hdigit] at hx
  split at hx <;> exact hread hx

end DesignTokens.Decimal
