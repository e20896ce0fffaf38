import Mathlib.Data.List.Forall2
import DesignTokens.Schema

/-!
# Fields that pass their checks

A check of several fields is valid exactly when each of its parts is. The equations
take a structure apart into the checks of its single fields.
-/

namespace DesignTokens.Schema

namespace Checked

variable {α β : Type}

@[simp]
theorem within_eq_valid {place : Place} {x : Checked α} {value : α} :
    x.within place = .valid value ↔ x = .valid value := by
  cases x <;> simp [within]

@[simp]
theorem mapValid_eq_valid {f : α → β} {x : Checked α} {value : β} :
    mapValid f x = .valid value ↔ ∃ a, x = .valid a ∧ f a = value := by
  cases x <;> simp [mapValid]

@[simp]
theorem both_eq_valid {f : Checked (α → β)} {x : Checked α} {value : β} :
    both f x = .valid value ↔ ∃ g, f = .valid g ∧ ∃ a, x = .valid a ∧ g a = value := by
  cases f <;> cases x <;> simp [both]

@[simp]
theorem map_eq_valid {f : α → β} {x : Checked α} {value : β} :
    f <$> x = .valid value ↔ ∃ a, x = .valid a ∧ f a = value :=
  mapValid_eq_valid

@[simp]
theorem seq_eq_valid {f : Checked (α → β)} {x : Checked α} {value : β} :
    f <*> x = .valid value ↔ ∃ g, f = .valid g ∧ ∃ a, x = .valid a ∧ g a = value :=
  both_eq_valid

theorem all_eq_valid {checks : List (Checked α)} {values : List α} :
    all checks = .valid values ↔
      List.Forall₂ (fun check value => check = .valid value) checks values := by
  induction checks generalizing values with
  | nil =>
      simp only [all, valid.injEq]
      constructor
      · rintro rfl
        exact .nil
      · rintro ⟨⟩
        rfl
  | cons check rest ih =>
      simp only [all, both_eq_valid, mapValid_eq_valid]
      constructor
      · rintro ⟨_, ⟨value, hvalue, rfl⟩, others, hothers, rfl⟩
        exact .cons hvalue (ih.1 hothers)
      · rintro (- | ⟨hvalue, hothers⟩)
        exact ⟨_, ⟨_, hvalue, rfl⟩, _, ih.2 hothers, rfl⟩

@[simp]
theorem toExcept_eq_ok {model : String} {x : Checked α} {value : α} :
    x.toExcept model = .ok value ↔ x = .valid value := by
  cases x <;> simp [toExcept]

end Checked

end DesignTokens.Schema
