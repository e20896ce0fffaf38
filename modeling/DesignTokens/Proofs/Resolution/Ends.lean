import DesignTokens.Resolution

/-!
# How a resolution ends

A computation on the known values comes to a result and the values known then, or to
an error. Both ends are stated together, so that one walk over a value shows what it
computes and why it fails.
-/

namespace DesignTokens.Resolution

variable {α β : Type}

/-- Started with `known`, the computation satisfies `good` if it returns and `bad` if it
fails. -/
structure Ends (run : StateT Known (Except Error) α) (known : Known) (good : α → Known → Prop)
    (bad : Error → Prop) : Prop where
  good_of_ok : ∀ result later, run known = .ok (result, later) → good result later
  bad_of_error : ∀ error, run known = .error error → bad error

namespace Ends

variable {known : Known} {good : α → Known → Prop} {bad : Error → Prop}

theorem of_return {result : α} (hgood : good result known) :
    Ends (pure result) known good bad where
  good_of_ok := by
    rintro _ _ ⟨⟩
    exact hgood
  bad_of_error := by rintro _ ⟨⟩

theorem of_throw {error : Error} (hbad : bad error) :
    Ends (throw error : StateT Known (Except Error) α) known good bad where
  good_of_ok := by rintro _ _ ⟨⟩
  bad_of_error := by
    rintro _ ⟨⟩
    exact hbad

theorem of_throw_bind {error : Error} (hbad : bad error)
    (f : β → StateT Known (Except Error) α) : Ends (throw error >>= f) known good bad where
  good_of_ok := by rintro _ _ ⟨⟩
  bad_of_error := by
    rintro _ ⟨⟩
    exact hbad

theorem of_except {x : Except Error α} (hgood : ∀ result, x = .ok result → good result known)
    (hbad : ∀ error, x = .error error → bad error) :
    Ends (x : StateT Known (Except Error) α) known good bad := by
  cases x with
  | error error => exact of_throw (hbad error rfl)
  | ok result => exact of_return (hgood result rfl)

theorem bind {x : StateT Known (Except Error) α} {f : α → StateT Known (Except Error) β}
    {after : β → Known → Prop} (hfirst : Ends x known good bad)
    (hnext : ∀ result later, good result later → Ends (f result) later after bad) :
    Ends (x >>= f) known after bad := by
  cases hx : x known with
  | error error =>
      have hrun : (x >>= f) known = .error error := by
        simp [Bind.bind, StateT.bind, hx, Except.bind]
      constructor
      · intro result later hok
        simp [hrun] at hok
      · intro other herror
        have hsame : error = other := by simpa [hrun] using herror
        subst hsame
        exact hfirst.bad_of_error error hx
  | ok pair =>
      have hrun : (x >>= f) known = f pair.1 pair.2 := by
        simp [Bind.bind, StateT.bind, hx, Except.bind]
      have hrest := hnext pair.1 pair.2 (hfirst.good_of_ok _ _ hx)
      exact ⟨fun result later hok => hrest.good_of_ok _ _ (hrun ▸ hok),
        fun error herror => hrest.bad_of_error _ (hrun ▸ herror)⟩

theorem map {x : StateT Known (Except Error) α} {f : α → β} {after : β → Known → Prop}
    (hfirst : Ends x known good bad)
    (hnext : ∀ result later, good result later → after (f result) later) :
    Ends (f <$> x) known after bad := by
  rw [map_eq_pure_bind]
  exact hfirst.bind fun result later hgood => of_return (hnext result later hgood)

theorem mono {x : StateT Known (Except Error) α} {weaker : α → Known → Prop}
    (hx : Ends x known good bad)
    (hweaker : ∀ result later, good result later → weaker result later) :
    Ends x known weaker bad where
  good_of_ok result later hok := hweaker result later (hx.good_of_ok result later hok)
  bad_of_error := hx.bad_of_error

theorem weaken {x : StateT Known (Except Error) α} {worse : Error → Prop}
    (hx : Ends x known good bad) (hworse : ∀ error, bad error → worse error) :
    Ends x known good worse where
  good_of_ok := hx.good_of_ok
  bad_of_error error herror := hworse error (hx.bad_of_error error herror)

/-- A computation that reads the known values and goes on from there. -/
theorem of_get {f : Known → StateT Known (Except Error) α} (hrest : Ends (f known) known good bad) :
    Ends (get >>= f) known good bad :=
  ⟨fun result later hok => hrest.good_of_ok result later hok,
    fun error herror => hrest.bad_of_error error herror⟩

/-- A computation that changes the known values and gives a result. -/
theorem of_modify {change : Known → Known} {result : α} (hgood : good result (change known)) :
    Ends (do modify change; return result) known good bad where
  good_of_ok := by
    rintro _ _ ⟨⟩
    exact hgood
  bad_of_error := by rintro _ ⟨⟩

/-! ### The end of a run that forgets the known values -/

variable {run : StateT Known (Except Error) α}

theorem exists_of_run'_eq_ok (hrun : Ends run known good bad) {result : α}
    (hok : run.run' known = .ok result) : ∃ later, good result later := by
  cases h : run known with
  | error error => simp [StateT.run', h, Functor.map, Except.map] at hok
  | ok pair =>
      have hsame : pair.1 = result := by
        simpa [StateT.run', h, Functor.map, Except.map] using hok
      subst hsame
      exact ⟨pair.2, hrun.good_of_ok _ _ h⟩

theorem bad_of_run'_eq_error (hrun : Ends run known good bad) {error : Error}
    (herror : run.run' known = .error error) : bad error := by
  cases h : run known with
  | error found =>
      have hsame : found = error := by
        simpa [StateT.run', h, Functor.map, Except.map] using herror
      subst hsame
      exact hrun.bad_of_error _ h
  | ok pair => simp [StateT.run', h, Functor.map, Except.map] at herror

end Ends

end DesignTokens.Resolution
