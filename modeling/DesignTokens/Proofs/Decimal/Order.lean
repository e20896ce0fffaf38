import DesignTokens.Decimal.Dyadic
import DesignTokens.Proofs.Decimal.Unsigned

/-!
# The order of doubles without a sign

Doubles without a sign are ordered by their bits as they are by the numbers they stand
for. The bits of a finite one count the units of `2 ^ -1074` below it, in steps that grow
with the exponent.
-/

namespace DesignTokens.Decimal

/-- The number that a dyadic fraction stands for. -/
noncomputable def Dyadic.toReal (d : Dyadic) : ℝ :=
  (if d.negative then -1 else 1) * d.significand * 2 ^ d.exponent

/-- The number that a double stands for, where infinity is above all numbers. -/
noncomputable def exactValue (x : Float) : WithTop ℝ :=
  match Dyadic.ofFloat? x with
  | some d => d.toReal
  | none => ⊤

/-- The number of units below the double of given bits. -/
def magnitude (bits : Nat) : Nat :=
  if bits / 2 ^ 52 = 0 then bits % 2 ^ 52
  else (2 ^ 52 + bits % 2 ^ 52) * 2 ^ (bits / 2 ^ 52 - 1)

theorem magnitude_lt_succ (bits : Nat) : magnitude bits < magnitude (bits + 1) := by
  have hfraction : bits % 2 ^ 52 < 2 ^ 52 := Nat.mod_lt _ (by norm_num)
  by_cases hlast : bits % 2 ^ 52 + 1 < 2 ^ 52
  · have hfield : (bits + 1) / 2 ^ 52 = bits / 2 ^ 52 := by omega
    have hnext : (bits + 1) % 2 ^ 52 = bits % 2 ^ 52 + 1 := by omega
    rw [magnitude, magnitude, hfield, hnext]
    split
    · exact Nat.lt_succ_self _
    · apply Nat.mul_lt_mul_of_pos_right
      · omega
      · positivity
  · have hfield : (bits + 1) / 2 ^ 52 = bits / 2 ^ 52 + 1 := by omega
    have hnext : (bits + 1) % 2 ^ 52 = 0 := by omega
    rw [magnitude, magnitude, hfield, hnext, if_neg (Nat.succ_ne_zero _)]
    split
    · next hzero =>
        rw [hzero]
        simpa using hfraction
    · next hpos =>
        obtain ⟨field, hsucc⟩ := Nat.exists_eq_add_one_of_ne_zero hpos
        rw [hsucc]
        have hscale : 0 < 2 ^ field := Nat.two_pow_pos field
        calc (2 ^ 52 + bits % 2 ^ 52) * 2 ^ (field + 1 - 1)
            = (2 ^ 52 + bits % 2 ^ 52) * 2 ^ field := rfl
          _ < (2 ^ 52 + 2 ^ 52) * 2 ^ field :=
              Nat.mul_lt_mul_of_pos_right (Nat.add_lt_add_left hfraction _) hscale
          _ = (2 ^ 52 + 0) * 2 ^ (field + 1 + 1 - 1) := by
              rw [Nat.add_sub_cancel]
              ring

theorem strictMono_magnitude : StrictMono magnitude :=
  strictMono_nat_of_lt_succ magnitude_lt_succ

/-- The number that a finite double without a sign stands for is a count of units. -/
theorem exactValue_of_lt {x : Float} (hfinite : x.toBits.toNat < infinityBits) :
    exactValue x = ((magnitude x.toBits.toNat * 2 ^ (-1074 : ℤ) : ℝ) : WithTop ℝ) := by
  rw [infinityBits] at hfinite
  have hfield : x.toBits.toNat / 2 ^ 52 % 2 ^ 11 = x.toBits.toNat / 2 ^ 52 := by omega
  have hsign : (x.toBits.toNat / 2 ^ 63 == 1) = false := by
    rw [beq_eq_false_iff_ne]
    omega
  have hbelow : x.toBits.toNat / 2 ^ 52 ≠ 2047 := by omega
  by_cases hzero : x.toBits.toNat / 2 ^ 52 = 0
  · have hvalue : Dyadic.ofFloat? x = some ⟨false, x.toBits.toNat % 2 ^ 52, -1074⟩ := by
      simp only [Dyadic.ofFloat?, Nat.pow_eq, hfield, hsign, if_neg hbelow, if_pos hzero]
    rw [exactValue, hvalue, magnitude, if_pos hzero]
    simp [Dyadic.toReal]
  · obtain ⟨field, hsucc⟩ := Nat.exists_eq_add_one_of_ne_zero hzero
    have hexponent : ((field + 1 : ℕ) : ℤ) - 1075 = (field : ℤ) + -1074 := by
      push_cast
      ring
    have hvalue : Dyadic.ofFloat? x =
        some ⟨false, 2 ^ 52 + x.toBits.toNat % 2 ^ 52, (field : ℤ) + -1074⟩ := by
      simp only [Dyadic.ofFloat?, Nat.pow_eq, hfield, hsign, if_neg hbelow, if_neg hzero]
      rw [hsucc, hexponent]
    rw [exactValue, hvalue, magnitude, if_neg hzero, hsucc, Nat.add_sub_cancel]
    dsimp only
    rw [Dyadic.toReal, zpow_add₀ two_ne_zero, zpow_natCast]
    simp [mul_assoc]

theorem exactValue_of_eq {x : Float} (hinfinite : x.toBits.toNat = infinityBits) :
    exactValue x = ⊤ := by
  have hnone : Dyadic.ofFloat? x = none := by
    simp [Dyadic.ofFloat?, hinfinite, infinityBits]
  rw [exactValue, hnone]

/-- Doubles without a sign are ordered as the numbers they stand for. -/
theorem exactValue_le_iff {x y : Float} (hx : IsUnsigned x) (hy : IsUnsigned y) :
    exactValue x ≤ exactValue y ↔ x.toBits.toNat ≤ y.toBits.toNat := by
  rcases Nat.lt_or_eq_of_le hy with hyfinite | hyinfinite
  · rcases Nat.lt_or_eq_of_le hx with hxfinite | hxinfinite
    · have hunit : (0 : ℝ) < 2 ^ (-1074 : ℤ) := by positivity
      rw [exactValue_of_lt hxfinite, exactValue_of_lt hyfinite, WithTop.coe_le_coe,
        mul_le_mul_iff_left₀ hunit, Nat.cast_le, strictMono_magnitude.le_iff_le]
    · rw [exactValue_of_eq hxinfinite, exactValue_of_lt hyfinite, hxinfinite, top_le_iff]
      exact iff_of_false (WithTop.coe_ne_top) (not_le.2 hyfinite)
  · rw [exactValue_of_eq hyinfinite, hyinfinite]
    exact iff_of_true le_top hx

end DesignTokens.Decimal
