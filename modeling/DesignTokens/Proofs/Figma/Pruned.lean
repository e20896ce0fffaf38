import DesignTokens.Figma.Document
import DesignTokens.Proofs.Tree.Overlaid
import DesignTokens.Proofs.Value.UniqueKeys

/-!
# Groups that hold no leaf

A group without a leaf is dropped, and so is one whose last leaf lay in a group that is
dropped. A leaf is kept with everything in it, at its path, and no leaf comes to stand where
none was.
-/

namespace DesignTokens.Figma

open DesignTokens.Tree DesignTokens.Value

variable {keys : Keys} {entries tree : Object} {node : Value}

theorem isLeaf_object : isLeaf keys (.object entries) = Entries.contains entries keys.value := rfl

theorem pruneMember_of_isLeaf (hleaf : isLeaf keys node = true) :
    pruneMember keys node = some node := by
  cases node with
  | object entries =>
      rw [pruneMember]
      exact if_pos hleaf
  | _ => cases hleaf

theorem pruneMember_group (hgroup : Entries.contains entries keys.value = false) :
    pruneMember keys (.object entries) =
      if (prune keys entries).isEmpty then none else some (.object (prune keys entries)) := by
  rw [pruneMember, hgroup, if_neg Bool.false_ne_true]

theorem prune_eq_collect (entries : Object) :
    prune keys entries = Entries.collect (pruneMember keys) entries := by
  induction entries with
  | nil => rfl
  | cons entry rest ih =>
      rw [prune, ih, Entries.collect, Entries.collect, List.filterMap_cons]
      cases pruneMember keys entry.2 <;> rfl

/-- A member of a pruned group is the pruned member of the group. -/
theorem get?_prune (hnodup : (Entries.keys entries).Nodup) (name : String) :
    Entries.get? (prune keys entries) name =
      (Entries.get? entries name).bind (pruneMember keys) := by
  rw [prune_eq_collect, Entries.get?_collect _ hnodup]

/-- A pruned group is no leaf. -/
theorem contains_prune (hgroup : Entries.contains entries keys.value = false) :
    Entries.contains (prune keys entries) keys.value = false := by
  rw [Entries.contains, Option.isSome_eq_false_iff, Option.isNone_iff_eq_none,
    Entries.get?_eq_none_iff] at hgroup ⊢
  rw [prune_eq_collect]
  exact fun hmem => hgroup ((Entries.keys_collect_sublist _ entries).subset hmem)

theorem at?_bind_pruneMember_group (hgroup : Entries.contains entries keys.value = false)
    (step : String) (rest : List String) :
    ((pruneMember keys (.object entries)).bind fun kept => kept.at? (step :: rest)) =
      (Value.object (prune keys entries)).at? (step :: rest) := by
  rw [pruneMember_group hgroup]
  split
  · next hempty =>
      rw [List.isEmpty_iff.1 hempty]
      rfl
  · rfl

/-- The leaves of a pruned tree are those of the tree. -/
theorem at?_prune_eq_some_iff (hunique : (Value.object tree).UniqueKeys)
    (hleaf : isLeaf keys node = true) {path : List String} (hpath : path ≠ []) :
    (Value.object (prune keys tree)).at? path = some node ↔
      (Value.object tree).at? path = some node := by
  induction path generalizing tree with
  | nil => exact absurd rfl hpath
  | cons step rest ih =>
      rw [at?_object_cons, at?_object_cons, get?_prune hunique.nodup]
      cases hmember : Entries.get? tree step with
      | none => exact Iff.rfl
      | some member =>
          rw [Option.bind_some, Option.bind_some]
          cases member with
          | object entries =>
              cases hgroup : Entries.contains entries keys.value with
              | true =>
                  rw [pruneMember_of_isLeaf (isLeaf_object.trans hgroup), Option.bind_some]
              | false =>
                  cases rest with
                  | cons next more =>
                      rw [at?_bind_pruneMember_group hgroup]
                      exact ih (hunique.of_get? hmember) (List.cons_ne_nil _ _)
                  | nil =>
                      -- Neither the group nor what is left of it is a leaf.
                      constructor
                      · intro hnode
                        obtain ⟨kept, hkept, hsame⟩ := Option.bind_eq_some_iff.1 hnode
                        obtain rfl : kept = node := Option.some.inj hsame
                        rw [pruneMember_group hgroup] at hkept
                        split at hkept
                        · cases hkept
                        · cases hkept
                          rw [isLeaf_object, contains_prune hgroup] at hleaf
                          cases hleaf
                      · intro hnode
                        obtain rfl : Value.object entries = node := Option.some.inj hnode
                        rw [isLeaf_object, hgroup] at hleaf
                        cases hleaf
          | _ => exact Iff.rfl

end DesignTokens.Figma
