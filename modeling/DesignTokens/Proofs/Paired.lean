import Mathlib.Data.List.Forall2

/-!
# Lists paired item by item

Two lists of one length whose items are related in turn, as a list of checks and its
results are.
-/

namespace DesignTokens.Paired

variable {α β : Type} {R : α → β → Prop} {xs : List α} {ys : List β}

theorem exists_of_mem_left (hpaired : List.Forall₂ R xs ys) {x : α} (hmem : x ∈ xs) :
    ∃ y ∈ ys, R x y := by
  induction hpaired with
  | nil => simp at hmem
  | cons hfirst _ ih =>
      rcases List.mem_cons.1 hmem with rfl | hrest
      · exact ⟨_, List.mem_cons_self, hfirst⟩
      · obtain ⟨y, hy, hrelated⟩ := ih hrest
        exact ⟨y, List.mem_cons_of_mem _ hy, hrelated⟩

theorem exists_of_mem_right (hpaired : List.Forall₂ R xs ys) {y : β} (hmem : y ∈ ys) :
    ∃ x ∈ xs, R x y :=
  exists_of_mem_left hpaired.flip hmem

/-- Items that each have a partner form a list that has one. -/
theorem exists_of_forall_exists (hpartner : ∀ x ∈ xs, ∃ y, R x y) :
    ∃ ys, List.Forall₂ R xs ys := by
  induction xs with
  | nil => exact ⟨[], .nil⟩
  | cons x xs ih =>
      obtain ⟨y, hy⟩ := hpartner x List.mem_cons_self
      obtain ⟨ys, hys⟩ := ih fun x hmem => hpartner x (List.mem_cons_of_mem _ hmem)
      exact ⟨y :: ys, .cons hy hys⟩

theorem forall₂_eq_map_iff {f : α → β} :
    List.Forall₂ (fun x y => y = f x) xs ys ↔ ys = xs.map f := by
  rw [eq_comm, ← List.forall₂_eq_eq_eq, List.forall₂_map_left_iff]
  simp only [eq_comm]

theorem forall₂_congr_of_mem {S : α → β → Prop} (hsame : ∀ x ∈ xs, ∀ y, R x y ↔ S x y) :
    List.Forall₂ R xs ys ↔ List.Forall₂ S xs ys := by
  induction xs generalizing ys with
  | nil => simp only [List.forall₂_nil_left_iff]
  | cons x xs ih =>
      rw [List.forall_mem_cons] at hsame
      simp only [List.forall₂_cons_left_iff, hsame.1, ih hsame.2]

theorem map_eq_map {γ : Type} {f : α → γ} {g : β → γ} (hpaired : List.Forall₂ R xs ys)
    (hsame : ∀ x y, R x y → g y = f x) : ys.map g = xs.map f := by
  induction hpaired with
  | nil => rfl
  | cons hfirst _ ih => rw [List.map_cons, List.map_cons, hsame _ _ hfirst, ih]

/-- The partners of what a partial function gives are partners of the items at which it gives
something. -/
theorem of_filterMap {γ : Type} {f : γ → Option α} {zs : List γ}
    (hpaired : List.Forall₂ R (zs.filterMap f) ys) :
    List.Forall₂ (fun z y => ∃ x, f z = some x ∧ R x y) (zs.filter fun z => (f z).isSome) ys := by
  induction zs generalizing ys with
  | nil =>
      cases hpaired
      exact .nil
  | cons z zs ih =>
      rw [List.filterMap_cons] at hpaired
      cases hz : f z with
      | none =>
          rw [hz] at hpaired
          rw [List.filter_cons_of_neg (by simp [hz])]
          exact ih hpaired
      | some x =>
          rw [hz] at hpaired
          rw [List.filter_cons_of_pos (by simp [hz])]
          obtain - | ⟨hfirst, hrest⟩ := hpaired
          exact .cons ⟨x, hz, hfirst⟩ (ih hrest)

/-! ### Results that may be missing -/

theorem exists_of_rel_some {x : α} {found : Option β} (hrel : Option.Rel R (some x) found) :
    ∃ y, found = some y ∧ R x y := by
  cases hrel with
  | some hrelated => exact ⟨_, rfl, hrelated⟩

theorem exists_of_rel_some_right {y : β} {found : Option α}
    (hrel : Option.Rel R found (some y)) : ∃ x, found = some x ∧ R x y := by
  cases hrel with
  | some hrelated => exact ⟨_, rfl, hrelated⟩

theorem eq_none_of_rel_none {found : Option β} (hrel : Option.Rel R none found) :
    found = none := by
  cases hrel
  rfl

end DesignTokens.Paired
