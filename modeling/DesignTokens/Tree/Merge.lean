import DesignTokens.Entries
import DesignTokens.Value.Basic

/-!
# Merging trees

One object is laid over another: where both have an object the two are merged, and
everywhere else the upper value replaces the lower one. Keys keep the place of their
first appearance.
-/

namespace DesignTokens.Tree

mutual

/-- `base` with the entries of the second object laid over it. -/
def merge (base : Object) : List (String × Value) → Object
  | [] => base
  | (key, value) :: rest =>
    merge (Entries.insert base key (overlay (Entries.get? base key) value)) rest
termination_by structural entries => entries

/-- What stands at a key after `value` was laid over what stood there before. -/
def overlay (old : Option Value) : Value → Value
  | .object entries =>
    match old with
    | some (.object base) => .object (merge base entries)
    | _ => .object entries
  | value => value
termination_by structural value => value

end

@[simp]
theorem merge_nil (base : Object) : merge base [] = base := by
  simp [merge]

theorem merge_cons (base : Object) (key : String) (value : Value) (rest : Object) :
    merge base ((key, value) :: rest) =
      merge (Entries.insert base key (overlay (Entries.get? base key) value)) rest := by
  simp [merge]

theorem overlay_object (base entries : Object) :
    overlay (some (.object base)) (.object entries) = .object (merge base entries) := by
  simp [overlay]

theorem overlay_of_not_object {value : Value} (hleaf : value.isObject = false)
    (old : Option Value) : overlay old value = value := by
  cases value <;> first
    | rfl
    | simp [Value.isObject, Value.object?] at hleaf

end DesignTokens.Tree
