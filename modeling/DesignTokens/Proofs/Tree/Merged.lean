import DesignTokens.Proofs.Tree.Leaves
import DesignTokens.Tree.Merge

/-!
# The tokens of merged trees

A path leads to a token of a merged tree only if it does so in one of the trees that were
merged: what makes a token and what keeps a group from being one are keys, and merging
adds keys and loses none.
-/

namespace DesignTokens.Tree

variable {keys : Keys} {path : TokenPath}

/-- A token stands at and below a member of a group after the given steps. -/
def MemberHasLeaf (keys : Keys) (value : Value) (path : TokenPath) : Prop :=
  path ∈ (memberLeaves keys value).map Leaf.path

/-- A token stands in the tree at the path, before anything is handed down. -/
def HasLeaf (keys : Keys) (tree : Object) (path : TokenPath) : Prop :=
  path ∈ (leaves keys tree).map Leaf.path

theorem memberHasLeaf_of_token {entries : Object}
    (htoken : Entries.contains entries keys.value = true) :
    MemberHasLeaf keys (.object entries) path ↔ path = [] := by
  simp [MemberHasLeaf, memberLeaves, htoken]

theorem memberHasLeaf_of_group {entries : Object}
    (hgroup : Entries.contains entries keys.value = false) :
    MemberHasLeaf keys (.object entries) path ↔ HasLeaf keys entries path := by
  rw [MemberHasLeaf, memberLeaves, hgroup, if_neg Bool.false_ne_true, List.map_map]
  rfl

theorem hasLeaf_cons {name : String} {value : Value} {rest : Object} :
    HasLeaf keys ((name, value) :: rest) path ↔
      (isReserved name = false ∧ ∃ steps, path = name :: steps ∧ MemberHasLeaf keys value steps) ∨
        HasLeaf keys rest path := by
  rw [HasLeaf, leaves, List.map_append, List.mem_append, ← HasLeaf]
  apply or_congr_left
  cases hname : isReserved name with
  | true => simp
  | false =>
      simp only [Bool.false_eq_true, if_false, List.map_map, true_and]
      rw [show Leaf.path ∘ Leaf.under name = List.cons name ∘ Leaf.path from rfl, ← List.map_map,
        List.mem_map]
      simp only [MemberHasLeaf, and_comm, eq_comm]

/-- A path to a token starts at one of the members of the tree. -/
theorem hasLeaf_iff {tree : Object} :
    HasLeaf keys tree path ↔ ∃ entry ∈ tree, isReserved entry.1 = false ∧
      ∃ steps, path = entry.1 :: steps ∧ MemberHasLeaf keys entry.2 steps := by
  induction tree with
  | nil => simp [HasLeaf, leaves]
  | cons entry rest ih => rw [hasLeaf_cons, ih, List.exists_mem_cons_iff]

mutual

theorem not_isReserved_of_memberHasLeaf (value : Value) {path : TokenPath}
    (hleaf : MemberHasLeaf keys value path) : ∀ step ∈ path, isReserved step = false := by
  cases value with
  | object entries =>
      cases hvalue : Entries.contains entries keys.value with
      | true =>
          rw [(memberHasLeaf_of_token hvalue).1 hleaf]
          simp
      | false => exact not_isReserved_of_hasLeaf entries ((memberHasLeaf_of_group hvalue).1 hleaf)
  | _ => simp [MemberHasLeaf, memberLeaves] at hleaf
termination_by structural value

/-- No reserved name is a step of a path to a token. -/
theorem not_isReserved_of_hasLeaf (tree : List (String × Value)) {path : TokenPath}
    (hleaf : HasLeaf keys tree path) : ∀ step ∈ path, isReserved step = false := by
  cases tree with
  | nil => simp [HasLeaf, leaves] at hleaf
  | cons entry rest =>
      rcases hasLeaf_cons.1 hleaf with ⟨hname, steps, rfl, hmember⟩ | hrest
      · exact List.forall_mem_cons.2 ⟨hname, not_isReserved_of_memberHasLeaf entry.2 hmember⟩
      · exact not_isReserved_of_hasLeaf rest hrest
termination_by structural tree

end

/-! ## Merging -/

theorem contains_merge (base upper : Object) (key : String) :
    Entries.contains (merge base upper) key =
      (Entries.contains base key || Entries.contains upper key) := by
  induction upper generalizing base with
  | nil => simp [Entries.contains]
  | cons entry rest ih =>
      rw [merge_cons, ih, Entries.contains_insert, Entries.contains_cons]
      cases entry.1 == key <;> simp [Bool.or_comm]

/-- Trees laid over one another in order. -/
def mergeAll (trees : List Object) : Object :=
  trees.foldl merge []

theorem mergeAll_append_singleton (trees : List Object) (tree : Object) :
    mergeAll (trees ++ [tree]) = merge (mergeAll trees) tree := by
  rw [mergeAll, List.foldl_append]
  rfl

mutual

/-- Every token of a merged tree has a token in its place in one of the two trees. -/
theorem hasLeaf_of_merge {base : Object} (upper : List (String × Value)) {path : TokenPath}
    (hleaf : HasLeaf keys (merge base upper) path) :
    HasLeaf keys base path ∨ HasLeaf keys upper path := by
  cases upper with
  | nil => exact .inl (by rwa [merge_nil] at hleaf)
  | cons entry rest =>
      obtain ⟨key, value⟩ := entry
      rw [merge_cons] at hleaf
      rcases hasLeaf_of_merge rest hleaf with hnow | hrest
      · obtain ⟨entry, hmem, hname, steps, rfl, hmember⟩ := hasLeaf_iff.1 hnow
        rcases Entries.eq_or_mem_of_mem_insert hmem with rfl | hold
        · rcases memberHasLeaf_of_overlay value hmember with ⟨old, hold, hmember⟩ | hmember
          · have hentry := Entries.mem_of_get?_eq_some hold
            exact .inl (hasLeaf_iff.2 ⟨_, hentry, hname, steps, rfl, hmember⟩)
          · exact .inr (hasLeaf_cons.2 (.inl ⟨hname, steps, rfl, hmember⟩))
        · exact .inl (hasLeaf_iff.2 ⟨entry, hold, hname, steps, rfl, hmember⟩)
      · exact .inr (hasLeaf_cons.2 (.inr hrest))
termination_by structural upper

theorem memberHasLeaf_of_overlay {old : Option Value} (value : Value) {path : TokenPath}
    (hleaf : MemberHasLeaf keys (overlay old value) path) :
    (∃ base, old = some base ∧ MemberHasLeaf keys base path) ∨ MemberHasLeaf keys value path := by
  cases value with
  | object upper =>
      cases old with
      | none => exact .inr hleaf
      | some base =>
          cases base with
          | object base =>
              rw [overlay_object] at hleaf
              have hcontains := contains_merge base upper keys.value
              cases hbase : Entries.contains base keys.value with
              | true =>
                  rw [memberHasLeaf_of_token (by simp [hcontains, hbase])] at hleaf
                  exact .inl ⟨_, rfl, (memberHasLeaf_of_token hbase).2 hleaf⟩
              | false =>
                  cases hupper : Entries.contains upper keys.value with
                  | true =>
                      rw [memberHasLeaf_of_token (by simp [hcontains, hupper])] at hleaf
                      exact .inr ((memberHasLeaf_of_token hupper).2 hleaf)
                  | false =>
                      rw [memberHasLeaf_of_group (by simp [hcontains, hbase, hupper])] at hleaf
                      rcases hasLeaf_of_merge upper hleaf with hleaf | hleaf
                      · exact .inl ⟨_, rfl, (memberHasLeaf_of_group hbase).2 hleaf⟩
                      · exact .inr ((memberHasLeaf_of_group hupper).2 hleaf)
          | _ => exact .inr hleaf
  | _ => exact .inr hleaf
termination_by structural value

end

end DesignTokens.Tree
