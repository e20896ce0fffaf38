/-!
# Digits to a base

Escapes and tagged whole numbers are written with digits to base 2, 8, 10 or 16. The
letters `a` to `f` are digits in either case.
-/

namespace DesignTokens.Text

/-- The number that a digit to base 16 stands for. -/
def hexValue? (c : Char) : Option Nat :=
  if '0' ≤ c ∧ c ≤ '9' then some (c.toNat - '0'.toNat)
  else if 'a' ≤ c ∧ c ≤ 'f' then some (c.toNat - 'a'.toNat + 10)
  else if 'A' ≤ c ∧ c ≤ 'F' then some (c.toNat - 'A'.toNat + 10)
  else none

/-- The number that a digit to some base stands for. -/
def digitOfBase? (base : Nat) (c : Char) : Option Nat :=
  (hexValue? c).filter (· < base)

/-- The number with these digits to a base; without digits it is zero. -/
def numberOfBase? (base : Nat) (digits : List Char) : Option Nat :=
  digits.foldlM (fun total c => (digitOfBase? base c).map (base * total + ·)) 0

/-- Decimal whole numbers of more digits than this are refused. -/
def digitLimit : Nat := 4300

example : numberOfBase? 16 ['0', 'f', 'F'] = some 255 := by decide

example : numberOfBase? 8 ['8'] = none := by decide

theorem digitOfBase?_lt {base value : Nat} {c : Char} (hdigit : digitOfBase? base c = some value) :
    value < base := by
  simp only [digitOfBase?, Option.filter_eq_some_iff, decide_eq_true_eq] at hdigit
  exact hdigit.2

end DesignTokens.Text
