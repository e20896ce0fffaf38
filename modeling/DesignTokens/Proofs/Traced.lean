import Mathlib.Data.List.Forall2
import DesignTokens.Traced

/-!
# Runs that succeed and runs that fail

A run succeeds exactly when each of its steps does. The equations take a successful run
apart into the results of its steps. A run fails as one of its steps does.
-/

namespace DesignTokens

variable {α β : Type}

namespace Failing

variable {ε : Type} {x : Except ε α}

theorem bind_eq_ok {f : α → Except ε β} {b : β} :
    x >>= f = .ok b ↔ ∃ a, x = .ok a ∧ f a = .ok b := by
  cases x <;> simp [bind, Except.bind]

theorem map_eq_ok {f : α → β} {b : β} : f <$> x = .ok b ↔ ∃ a, x = .ok a ∧ f a = b := by
  cases x <;> simp [Functor.map, Except.map]

theorem mapError_eq_error {ε' : Type} {f : ε → ε'} {failure : ε'} :
    x.mapError f = .error failure ↔ ∃ cause, x = .error cause ∧ f cause = failure := by
  cases x <;> simp [Except.mapError]

/-- A run over a list succeeds exactly when it does at every item. -/
theorem mapM_eq_ok {f : α → Except ε β} {xs : List α} {ys : List β} :
    xs.mapM f = .ok ys ↔ List.Forall₂ (fun x y => f x = .ok y) xs ys := by
  induction xs generalizing ys with
  | nil =>
      constructor
      · rintro ⟨⟩
        exact .nil
      · rintro ⟨⟩
        rfl
  | cons x xs ih =>
      simp only [List.mapM_cons, bind_eq_ok]
      constructor
      · rintro ⟨y, hy, others, hothers, ⟨⟩⟩
        exact .cons hy (ih.1 hothers)
      · rintro (- | ⟨hy, hothers⟩)
        exact ⟨_, hy, _, ih.2 hothers, rfl⟩

theorem filterMapM_eq_ok_of_forall {f : α → Except ε (Option β)} {g : α → Option β} {xs : List α}
    (hall : ∀ x ∈ xs, f x = .ok (g x)) : xs.filterMapM f = .ok (xs.filterMap g) := by
  induction xs with
  | nil => rfl
  | cons x xs ih =>
      rw [List.forall_mem_cons] at hall
      rw [List.filterMapM_cons, List.filterMap_cons, hall.1, ih hall.2]
      cases g x <;> rfl

theorem exists_of_filterMapM_eq_ok {f : α → Except ε (Option β)} {xs : List α} {ys : List β}
    (hrun : xs.filterMapM f = .ok ys) : ∀ x ∈ xs, ∃ found, f x = .ok found := by
  induction xs generalizing ys with
  | nil => exact List.forall_mem_nil _
  | cons x xs ih =>
      rw [List.filterMapM_cons, bind_eq_ok] at hrun
      obtain ⟨found, hfound, hrest⟩ := hrun
      rw [List.forall_mem_cons]
      refine ⟨⟨found, hfound⟩, ?_⟩
      cases found with
      | none => exact ih hrest
      | some y =>
          obtain ⟨others, hothers, -⟩ := bind_eq_ok.1 hrest
          exact ih hothers

theorem mapM_congr_of_mem {f g : α → Except ε β} {xs : List α}
    (hsame : ∀ x ∈ xs, f x = g x) : xs.mapM f = xs.mapM g := by
  induction xs with
  | nil => rfl
  | cons x xs ih =>
      rw [List.forall_mem_cons] at hsame
      rw [List.mapM_cons, List.mapM_cons, hsame.1, ih hsame.2]

/-- If the run fails, it fails in the given way. -/
def FailsOnly (bad : ε → Prop) (x : Except ε α) : Prop :=
  ∀ error, x = .error error → bad error

namespace FailsOnly

variable {bad : ε → Prop}

theorem of_ok (a : α) : FailsOnly bad (.ok a) := by
  rintro _ ⟨⟩

theorem of_eq_ok {a : α} (hx : x = .ok a) : FailsOnly bad x :=
  hx ▸ of_ok a

theorem of_error {error : ε} (hbad : bad error) : FailsOnly bad (.error error : Except ε α) := by
  rintro _ ⟨⟩
  exact hbad

theorem bind {f : α → Except ε β} (hx : FailsOnly bad x)
    (hf : ∀ a, x = .ok a → FailsOnly bad (f a)) : FailsOnly bad (x >>= f) := by
  cases x with
  | ok a => exact hf a rfl
  | error error =>
      rintro _ ⟨⟩
      exact hx error rfl

theorem map (hx : FailsOnly bad x) (f : α → β) : FailsOnly bad (f <$> x) := by
  cases x with
  | ok a => exact of_ok (f a)
  | error error =>
      rintro _ ⟨⟩
      exact hx error rfl

theorem mono {worse : ε → Prop} (hx : FailsOnly bad x)
    (himplies : ∀ error, bad error → worse error) : FailsOnly worse x :=
  fun error herror => himplies error (hx error herror)

theorem mapError {ε' : Type} {worse : ε' → Prop} {f : ε → ε'} (hall : ∀ error, worse (f error)) :
    FailsOnly worse (x.mapError f) := by
  intro error herror
  obtain ⟨cause, -, rfl⟩ := mapError_eq_error.1 herror
  exact hall cause

theorem mapM {f : α → Except ε β} {xs : List α} (hall : ∀ x ∈ xs, FailsOnly bad (f x)) :
    FailsOnly bad (xs.mapM f) := by
  induction xs with
  | nil => exact of_ok []
  | cons x xs ih =>
      rw [List.forall_mem_cons] at hall
      rw [List.mapM_cons]
      apply hall.1.bind
      intro y _
      apply (ih hall.2).bind
      exact fun ys _ => of_ok (y :: ys)

theorem filterMapM {f : α → Except ε (Option β)} {xs : List α}
    (hall : ∀ x ∈ xs, FailsOnly bad (f x)) : FailsOnly bad (xs.filterMapM f) := by
  induction xs with
  | nil => exact of_ok []
  | cons x xs ih =>
      rw [List.forall_mem_cons] at hall
      rw [List.filterMapM_cons]
      apply hall.1.bind
      intro found _
      cases found with
      | none => exact ih hall.2
      | some y => exact (ih hall.2).bind fun ys _ => of_ok (y :: ys)

theorem foldlM {f : β → α → Except ε β} {xs : List α}
    (hall : ∀ x ∈ xs, ∀ b, FailsOnly bad (f b x)) (b : β) : FailsOnly bad (xs.foldlM f b) := by
  induction xs generalizing b with
  | nil => exact of_ok b
  | cons x xs ih =>
      rw [List.forall_mem_cons] at hall
      rw [List.foldlM_cons]
      exact (hall.1 b).bind fun next _ => ih hall.2 next

end FailsOnly

variable {good more : Prop} {bad : ε → Prop}

/-- The run succeeds if `good` holds, and fails in the given way if not. -/
structure Decided (good : Prop) (bad : ε → Prop) (x : Except ε α) : Prop where
  ok : good → ∃ a, x = .ok a
  error : ¬ good → ∃ error, bad error ∧ x = .error error

namespace Decided

theorem of_ok (a : α) : Decided True bad (.ok a) where
  ok := fun _ => ⟨a, rfl⟩
  error := fun hnone => absurd trivial hnone

theorem congr {good' : Prop} (hx : Decided good bad x) (hsame : good ↔ good') :
    Decided good' bad x :=
  propext hsame ▸ hx

theorem map (hx : Decided good bad x) (f : α → β) : Decided good bad (f <$> x) where
  ok := by
    intro hgood
    obtain ⟨a, rfl⟩ := hx.ok hgood
    exact ⟨f a, rfl⟩
  error := by
    intro hbad
    obtain ⟨error, herror, rfl⟩ := hx.error hbad
    exact ⟨error, herror, rfl⟩

theorem bind {f : α → Except ε β} (hx : Decided good bad x)
    (hf : ∀ a, x = .ok a → Decided more bad (f a)) : Decided (good ∧ more) bad (x >>= f) where
  ok := by
    rintro ⟨hgood, hmore⟩
    obtain ⟨a, rfl⟩ := hx.ok hgood
    exact (hf a rfl).ok hmore
  error := by
    intro hnone
    by_cases hgood : good
    · obtain ⟨a, rfl⟩ := hx.ok hgood
      exact (hf a rfl).error fun hmore => hnone ⟨hgood, hmore⟩
    · obtain ⟨error, herror, rfl⟩ := hx.error hgood
      exact ⟨error, herror, rfl⟩

theorem mapM {f : α → Except ε β} {goodAt : α → Prop}
    (hall : ∀ x, Decided (goodAt x) bad (f x)) (xs : List α) :
    Decided (∀ x ∈ xs, goodAt x) bad (xs.mapM f) := by
  induction xs with
  | nil => exact (of_ok []).congr (by simp)
  | cons x xs ih =>
      rw [List.mapM_cons, List.forall_mem_cons]
      apply (hall x).bind
      intro y _
      exact ih.map (y :: ·)

theorem failsOnly (hx : Decided good bad x) : FailsOnly bad x := by
  intro error herror
  by_cases hgood : good
  · obtain ⟨a, rfl⟩ := hx.ok hgood
    cases herror
  · obtain ⟨other, hother, rfl⟩ := hx.error hgood
    cases herror
    exact hother

end Decided

end Failing

namespace Traced

variable {x : Traced α}

@[simp]
theorem result_ofExcept (result : Except Error α) : (ofExcept result).result = result := rfl

theorem ofExcept_map (f : α → β) (result : Except Error α) :
    ofExcept (f <$> result) = f <$> ofExcept result := by
  cases result <;> rfl

theorem ofExcept_bind (result : Except Error α) (f : α → Except Error β) :
    ofExcept (result >>= f) = ofExcept result >>= fun value => ofExcept (f value) := by
  cases result <;> rfl

theorem result_map (f : α → β) : (f <$> x).result = f <$> x.result := by
  obtain ⟨notices, result⟩ := x
  cases result <;> rfl

theorem result_filterMapM (f : α → Traced (Option β)) (xs : List α) :
    (xs.filterMapM f).result = xs.filterMapM fun x => (f x).result := by
  induction xs with
  | nil => rfl
  | cons x xs ih =>
      rw [List.filterMapM_cons, List.filterMapM_cons, result_bind]
      apply bind_congr
      intro found
      cases found with
      | none => exact ih
      | some y =>
          simp only [result_bind, ih]
          rfl

theorem result_mapM (f : α → Traced β) (xs : List α) :
    (xs.mapM f).result = xs.mapM fun x => (f x).result := by
  induction xs with
  | nil => rfl
  | cons x xs ih =>
      simp only [List.mapM_cons, result_bind, ih]
      rfl

theorem bind_eq_ok {f : α → Traced β} {b : β} :
    (x >>= f).result = .ok b ↔ ∃ a, x.result = .ok a ∧ (f a).result = .ok b := by
  rw [result_bind, Failing.bind_eq_ok]

theorem map_eq_ok {f : α → β} {b : β} :
    (f <$> x).result = .ok b ↔ ∃ a, x.result = .ok a ∧ f a = b := by
  rw [map_eq_pure_bind, bind_eq_ok]
  simp

/-- A run over a list succeeds exactly when it does at every item. -/
theorem mapM_eq_ok {f : α → Traced β} {xs : List α} {ys : List β} :
    (xs.mapM f).result = .ok ys ↔ List.Forall₂ (fun x y => (f x).result = .ok y) xs ys := by
  induction xs generalizing ys with
  | nil =>
      constructor
      · rintro ⟨⟩
        exact .nil
      · rintro ⟨⟩
        rfl
  | cons x xs ih =>
      simp only [List.mapM_cons, bind_eq_ok, result_pure, Except.ok.injEq]
      constructor
      · rintro ⟨y, hy, others, hothers, rfl⟩
        exact .cons hy (ih.1 hothers)
      · rintro (- | ⟨hy, hothers⟩)
        exact ⟨_, hy, _, ih.2 hothers, rfl⟩

@[simp]
theorem result_note_bind (notice : Notice) (f : Unit → Traced β) :
    (note notice >>= f).result = (f ()).result := rfl

/-- Notices that are given one after another. -/
theorem forM_note (f : α → Notice) (xs : List α) :
    (xs.forM fun x => note (f x)) = ⟨xs.map f, .ok ()⟩ := by
  induction xs with
  | nil => rfl
  | cons x xs ih =>
      calc
        ((x :: xs).forM fun x => note (f x)) =
            note (f x) >>= fun _ => xs.forM fun x => note (f x) := rfl
        _ = ⟨(x :: xs).map f, .ok ()⟩ := by rw [ih]; rfl

/-! ### Runs that fail -/

variable {bad : Error → Prop}

theorem failsOnly_bind {f : α → Traced β} (hx : Failing.FailsOnly bad x.result)
    (hf : ∀ a, x.result = .ok a → Failing.FailsOnly bad (f a).result) :
    Failing.FailsOnly bad (x >>= f).result := by
  rw [result_bind]
  exact hx.bind hf

theorem failsOnly_map (hx : Failing.FailsOnly bad x.result) (f : α → β) :
    Failing.FailsOnly bad (f <$> x).result := by
  rw [map_eq_pure_bind]
  exact failsOnly_bind hx fun a _ => .of_ok (f a)

theorem failsOnly_foldlM {f : β → α → Traced β} {xs : List α}
    (hall : ∀ x ∈ xs, ∀ b, Failing.FailsOnly bad (f b x).result) (b : β) :
    Failing.FailsOnly bad (xs.foldlM f b).result := by
  induction xs generalizing b with
  | nil => exact .of_ok b
  | cons x xs ih =>
      rw [List.forall_mem_cons] at hall
      rw [List.foldlM_cons]
      exact failsOnly_bind (hall.1 b) fun next _ => ih hall.2 next

theorem failsOnly_filterMapM {f : α → Traced (Option β)} {xs : List α}
    (hall : ∀ x ∈ xs, Failing.FailsOnly bad (f x).result) :
    Failing.FailsOnly bad (xs.filterMapM f).result := by
  rw [result_filterMapM]
  exact .filterMapM hall

end Traced

end DesignTokens
