import DesignTokens.Notice

/-!
# Results with notices

A computation that reports on its way: it ends in a value or an error, and either
way the notices given up to that point remain. The value never depends on notices
that were given before.
-/

namespace DesignTokens

structure Traced (α : Type) where
  notices : List Notice
  result : Except Error α

namespace Traced

variable {α β : Type}

def ofExcept (result : Except Error α) : Traced α :=
  ⟨[], result⟩

def fail (error : Error) : Traced α :=
  ⟨[], .error error⟩

def note (notice : Notice) : Traced Unit :=
  ⟨[notice], .ok ()⟩

/-- Goes on with the value of `x`; its notices come first. -/
def andThen (x : Traced α) (f : α → Traced β) : Traced β :=
  match x.result with
  | .ok value => ⟨x.notices ++ (f value).notices, (f value).result⟩
  | .error error => ⟨x.notices, .error error⟩

instance : Monad Traced where
  pure value := ⟨[], .ok value⟩
  bind := andThen

instance : MonadLift (Except Error) Traced := ⟨ofExcept⟩

instance : MonadExcept Error Traced where
  throw := fail
  tryCatch x handle :=
    match x.result with
    | .ok _ => x
    | .error error => ⟨x.notices ++ (handle error).notices, (handle error).result⟩

theorem id_map_eq (x : Traced α) : id <$> x = x := by
  obtain ⟨notices, result⟩ := x
  cases result <;> simp [Functor.map, andThen]

theorem pure_andThen (value : α) (f : α → Traced β) : (pure value >>= f) = f value := by
  simp [bind, pure, andThen]

theorem andThen_assoc {γ : Type} (x : Traced α) (f : α → Traced β) (g : β → Traced γ) :
    x >>= f >>= g = x >>= fun value => f value >>= g := by
  obtain ⟨notices, result⟩ := x
  cases result with
  | error error => simp [bind, andThen]
  | ok value =>
      simp only [bind, andThen]
      cases (f value).result <;> simp

instance : LawfulMonad Traced :=
  LawfulMonad.mk' Traced id_map_eq pure_andThen andThen_assoc

@[simp]
theorem result_pure (value : α) : (pure value : Traced α).result = .ok value := rfl

theorem result_bind (x : Traced α) (f : α → Traced β) :
    (x >>= f).result = x.result >>= fun value => (f value).result := by
  obtain ⟨notices, result⟩ := x
  cases result <;> rfl

end Traced

end DesignTokens
