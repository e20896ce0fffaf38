import DesignTokens.Json.Reader
import DesignTokens.Proofs.Traced
import DesignTokens.Proofs.Value.UniqueKeys

/-!
# What the JSON reader gives

A key that is read again keeps its place and takes the later value. So no object that
the reader gives names a key twice, at any depth.
-/

namespace DesignTokens.Json

open DesignTokens.Value

variable {value : Value} {rest : Rest}

theorem uniqueKeys_of_readWord? {chars : List Char} (hword : readWord? chars = some (value, rest)) :
    value.UniqueKeys := by
  obtain ⟨⟨word, found⟩, hmem, hfound⟩ := List.exists_of_findSome?_eq_some hword
  have hscalar : ∀ entry ∈ words, entry.2.UniqueKeys := by simp [words, UniqueKeys]
  have hsame : found = value := by
    simp only [Option.ite_none_right_eq_some, Option.some.injEq, Prod.mk.injEq] at hfound
    exact hfound.2.1
  exact hsame ▸ hscalar _ hmem

theorem uniqueKeys_of_readNumber {chars : List Char}
    (hnumber : readNumber chars = .ok (value, rest)) : value.UniqueKeys := by
  unfold readNumber at hnumber
  split at hnumber
  split at hnumber
  dsimp only at hnumber
  -- What is read is a double if there is an exponent or a fraction, else a whole number.
  split at hnumber
  · cases hnumber
  split at hnumber
  · cases hnumber
    trivial
  split at hnumber
  · cases hnumber
    trivial
  split at hnumber
  · cases hnumber
  · cases hnumber
    trivial

mutual

/-- No object inside a value that was read names a key twice. -/
theorem uniqueKeys_of_readValue (budget : Nat) {chars : List Char} {value : Value} {rest : Rest}
    (hread : readValue budget chars = .ok (value, rest)) : value.UniqueKeys := by
  cases budget with
  | zero => cases hread
  | succ budget =>
      unfold readValue at hread
      dsimp only at hread
      split at hread
      · obtain ⟨text, -, hvalue⟩ := Failing.bind_eq_ok.1 hread
        cases hvalue
        trivial
      · split at hread
        · cases hread
          trivial
        · obtain ⟨items, hitems, hvalue⟩ := Failing.bind_eq_ok.1 hread
          cases hvalue
          exact uniqueKeys_list_iff.2 (uniqueKeys_of_readItems budget (by simp) hitems)
      · split at hread
        · cases hread
          exact uniqueKeys_object_iff.2 (by simp [Entries.keys])
        · obtain ⟨entries, hentries, hvalue⟩ := Failing.bind_eq_ok.1 hread
          cases hvalue
          have hempty : (Value.object []).UniqueKeys :=
            uniqueKeys_object_iff.2 (by simp [Entries.keys])
          exact uniqueKeys_of_readEntries budget hempty hentries
      · split at hread
        · next found hword =>
            cases hread
            exact uniqueKeys_of_readWord? hword
        · exact uniqueKeys_of_readNumber hread
termination_by budget

theorem uniqueKeys_of_readItems (budget : Nat) {found items : List Value} {chars : List Char}
    {rest : Rest} (hfound : ∀ item ∈ found, item.UniqueKeys)
    (hread : readItems budget found chars = .ok (items, rest)) :
    ∀ item ∈ items, item.UniqueKeys := by
  cases budget with
  | zero => cases hread
  | succ budget =>
      unfold readItems at hread
      obtain ⟨⟨item, after⟩, hitem, hrest⟩ := Failing.bind_eq_ok.1 hread
      have hnow : ∀ other ∈ item :: found, other.UniqueKeys :=
        List.forall_mem_cons.2 ⟨uniqueKeys_of_readValue budget hitem, hfound⟩
      dsimp only at hrest
      split at hrest
      · exact uniqueKeys_of_readItems budget hnow hrest
      · cases hrest
        exact fun other hmem => hnow other (List.mem_reverse.1 hmem)
      · cases hrest
termination_by budget

theorem uniqueKeys_of_readEntries (budget : Nat) {found entries : Object} {chars : List Char}
    {rest : Rest} (hfound : (Value.object found).UniqueKeys)
    (hread : readEntries budget found chars = .ok (entries, rest)) :
    (Value.object entries).UniqueKeys := by
  cases budget with
  | zero => cases hread
  | succ budget =>
      unfold readEntries at hread
      dsimp only at hread
      split at hread
      · obtain ⟨⟨key, afterKey⟩, -, hafter⟩ := Failing.bind_eq_ok.1 hread
        dsimp only at hafter
        split at hafter
        · obtain ⟨⟨value, after⟩, hvalue, hrest⟩ := Failing.bind_eq_ok.1 hafter
          have hnow : (Value.object (Entries.insert found key value)).UniqueKeys :=
            hfound.insert (uniqueKeys_of_readValue budget hvalue)
          dsimp only at hrest
          split at hrest
          · exact uniqueKeys_of_readEntries budget hnow hrest
          · cases hrest
            exact hnow
          · cases hrest
        · cases hafter
      · cases hread
termination_by budget

end

/-- No object inside the value of a text names a key twice. -/
theorem uniqueKeys_of_read {text : String} (hread : read text = .ok value) :
    value.UniqueKeys := by
  obtain ⟨⟨found, after⟩, hfound, hend⟩ := Failing.bind_eq_ok.1 hread
  dsimp only at hend
  split at hend
  · cases hend
    exact uniqueKeys_of_readValue _ hfound
  · cases hend

end DesignTokens.Json
