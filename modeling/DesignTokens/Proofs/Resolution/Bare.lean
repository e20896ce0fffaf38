import DesignTokens.Proofs.Resolution.Checks
import DesignTokens.Proofs.Resolution.Distinct
import DesignTokens.Proofs.Traced

/-!
# Tokens without what nothing refers to

Description and extensions of a token are checked and handed on, and no value depends on
them. Tokens that lose both resolve as before.
-/

namespace DesignTokens

/-- The token with its references alone, and its type. -/
def Authored.bare (token : Authored) : Authored :=
  { token with extensions := [], description := .null }

@[simp]
theorem Authored.path_bare (token : Authored) : token.bare.path = token.path := rfl

@[simp]
theorem Authored.value_bare (token : Authored) : token.bare.value = token.value := rfl

/-- The token with path, name, type and both values, and nothing else. -/
def Token.bare (token : Token) : Token :=
  { token with mode := none, description := none, extensions := [], source := none }

namespace Resolution

variable {tokens : List Authored} {lead : Option String} {out : List Token}

theorem find?_map_bare (path : TokenPath) :
    find? (tokens.map Authored.bare) path = (find? tokens path).map Authored.bare := by
  rw [find?, List.find?_map]
  rfl

theorem missing_bare (token : Authored) (reference : String) :
    missing token.bare reference = missing token reference := rfl

theorem throw_bind {α β : Type} (error : Error) (f : α → StateT Known (Except Error) β) :
    (throw error >>= f) = throw error := rfl

/-- No value depends on a description or on extensions. -/
theorem valueOf_bare (fuel : Nat) (open_ : List String) (token : Authored) :
    valueOf (tokens.map Authored.bare) fuel open_ token.bare =
      valueOf tokens fuel open_ token := by
  induction fuel generalizing open_ token with
  | zero => rfl
  | succ fuel ih =>
      rw [valueOf, valueOf]
      apply bind_congr
      intro known
      rw [Authored.path_bare, Authored.value_bare]
      cases Entries.get? known token.path with
      | some value => rfl
      | none =>
          dsimp only
          by_cases hopen : token.path.dotted ∈ open_
          · rw [if_pos hopen, if_pos hopen, throw_bind, throw_bind]
          · rw [if_neg hopen, if_neg hopen]
            congr 2
            funext reference
            rw [find?_map_bare]
            cases find? tokens (Reference.path reference) with
            | none => exact congrArg throw (missing_bare token reference)
            | some target => exact ih _ target

theorem finish_bare {token : Authored} {value : Value} {found : Token}
    (hfound : finish lead token value = .ok found) (hsource : token.source = none) :
    finish lead token.bare value = .ok found.bare := by
  obtain ⟨hcarries, hvalue⟩ := finish_eq_ok.1 hfound
  refine finish_eq_ok.2 ⟨?_, hvalue⟩
  exact ⟨hcarries.path, hcarries.name, hcarries.type, hcarries.original, rfl, rfl, .nil,
    hsource.symm⟩

theorem run_bind_eq_ok {α β : Type} {x : StateT Known (Except Error) α}
    {f : α → StateT Known (Except Error) β} {known later : Known} {b : β} :
    (x >>= f) known = .ok (b, later) ↔
      ∃ a between, x known = .ok (a, between) ∧ f a between = .ok (b, later) := by
  change x known >>= (fun pair => f pair.1 pair.2) = .ok (b, later) ↔ _
  rw [Failing.bind_eq_ok, Prod.exists]

theorem run_liftM_eq_ok {α : Type} {x : Except Error α} {known later : Known} {a : α} :
    (liftM x : StateT Known (Except Error) α) known = .ok (a, later) ↔
      x = .ok a ∧ later = known := by
  cases x with
  | error error =>
      constructor
      · rintro ⟨⟩
      · rintro ⟨⟨⟩, -⟩
  | ok found =>
      change Except.ok (found, known) = .ok (a, later) ↔ _
      simp [eq_comm]

theorem resolveEach_bare {all todo : List Authored} {known later : Known}
    (hsource : ∀ token ∈ todo, token.source = none)
    (hout : resolveEach lead all todo known = .ok (out, later)) :
    resolveEach lead (all.map Authored.bare) (todo.map Authored.bare) known =
      .ok (out.map Token.bare, later) := by
  induction todo generalizing known out with
  | nil =>
      cases hout
      rfl
  | cons token rest ih =>
      rw [List.forall_mem_cons] at hsource
      rw [resolveEach] at hout
      obtain ⟨value, afterValue, hvalue, hchecked⟩ := run_bind_eq_ok.1 hout
      obtain ⟨found, _, hfinish, hothers⟩ := run_bind_eq_ok.1 hchecked
      obtain ⟨hfound, rfl⟩ := run_liftM_eq_ok.1 hfinish
      obtain ⟨others, _, hrest, hend⟩ := run_bind_eq_ok.1 hothers
      cases hend
      rw [List.map_cons, resolveEach, List.length_map, valueOf_bare]
      apply run_bind_eq_ok.2 ⟨value, _, hvalue, ?_⟩
      apply run_bind_eq_ok.2 ⟨found.bare, _, run_liftM_eq_ok.2 ⟨?_, rfl⟩, ?_⟩
      · exact finish_bare hfound hsource.1
      · exact run_bind_eq_ok.2 ⟨others.map Token.bare, _, ih hsource.2 hrest, rfl⟩

theorem map_path_bare :
    (tokens.map Authored.bare).map Authored.path = tokens.map Authored.path := by
  rw [List.map_map]
  rfl

/-- Tokens with a path each that resolve do so without their descriptions and extensions. -/
theorem resolve_bare (hnodup : (tokens.map Authored.path).Nodup)
    (hsource : ∀ token ∈ tokens, token.source = none) (hout : resolve tokens lead = .ok out) :
    resolve (tokens.map Authored.bare) lead = .ok (out.map Token.bare) := by
  have hbare : ((tokens.map Authored.bare).map Authored.path).Nodup := by rwa [map_path_bare]
  rw [resolve, distinct_eq_self hnodup] at hout
  rw [resolve, distinct_eq_self hbare]
  obtain ⟨⟨found, later⟩, hrun, rfl⟩ := Failing.map_eq_ok.1 hout
  exact Failing.map_eq_ok.2 ⟨_, resolveEach_bare hsource hrun, rfl⟩

end Resolution

end DesignTokens
