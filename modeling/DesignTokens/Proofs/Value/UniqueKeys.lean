import DesignTokens.Proofs.Entries
import DesignTokens.Tree.Merge

/-!
# Objects with each key once

An object is a list of entries, and a list can name a key twice, where a JSON object
cannot. The values that come from JSON text name no key twice at any depth, and merging
keeps it so.
-/

namespace DesignTokens.Value

mutual

/-- No object in the value names a key twice. -/
def UniqueKeys : Value → Prop
  | .list items => ItemsUnique items
  | .object entries => (Entries.keys entries).Nodup ∧ EntriesUnique entries
  | _ => True
termination_by structural value => value

def ItemsUnique : List Value → Prop
  | [] => True
  | item :: rest => UniqueKeys item ∧ ItemsUnique rest
termination_by structural items => items

def EntriesUnique : List (String × Value) → Prop
  | [] => True
  | (_, value) :: rest => UniqueKeys value ∧ EntriesUnique rest
termination_by structural entries => entries

end

theorem uniqueKeys_list_iff {items : List Value} :
    (Value.list items).UniqueKeys ↔ ∀ item ∈ items, item.UniqueKeys := by
  rw [UniqueKeys]
  induction items with
  | nil => simp [ItemsUnique]
  | cons item rest ih => rw [ItemsUnique, ih, List.forall_mem_cons]

theorem entriesUnique_iff {entries : Object} :
    EntriesUnique entries ↔ ∀ entry ∈ entries, entry.2.UniqueKeys := by
  induction entries with
  | nil => simp [EntriesUnique]
  | cons entry rest ih => rw [EntriesUnique, ih, List.forall_mem_cons]

theorem uniqueKeys_object_iff {entries : Object} :
    (Value.object entries).UniqueKeys ↔
      (Entries.keys entries).Nodup ∧ ∀ entry ∈ entries, entry.2.UniqueKeys := by
  rw [UniqueKeys, entriesUnique_iff]

variable {entries : Object} {key : String} {value : Value}

theorem UniqueKeys.nodup (hunique : (Value.object entries).UniqueKeys) :
    (Entries.keys entries).Nodup :=
  (uniqueKeys_object_iff.1 hunique).1

theorem UniqueKeys.of_mem (hunique : (Value.object entries).UniqueKeys)
    {entry : String × Value} (hmem : entry ∈ entries) : entry.2.UniqueKeys :=
  (uniqueKeys_object_iff.1 hunique).2 entry hmem

theorem UniqueKeys.of_get? (hunique : (Value.object entries).UniqueKeys)
    (hvalue : Entries.get? entries key = some value) : value.UniqueKeys :=
  hunique.of_mem (Entries.mem_of_get?_eq_some hvalue)

theorem UniqueKeys.tail {entry : String × Value}
    (hunique : (Value.object (entry :: entries)).UniqueKeys) :
    (Value.object entries).UniqueKeys := by
  obtain ⟨hnodup, hvalues⟩ := uniqueKeys_object_iff.1 hunique
  exact uniqueKeys_object_iff.2
    ⟨(List.nodup_cons.1 hnodup).2, fun other hmem => hvalues other (List.mem_cons_of_mem _ hmem)⟩

theorem UniqueKeys.insert (hunique : (Value.object entries).UniqueKeys)
    (hvalue : value.UniqueKeys) : (Value.object (Entries.insert entries key value)).UniqueKeys := by
  refine uniqueKeys_object_iff.2 ⟨Entries.nodup_keys_insert hunique.nodup key value, ?_⟩
  intro entry hmem
  rcases Entries.eq_or_mem_of_mem_insert hmem with rfl | hold
  · exact hvalue
  · exact hunique.of_mem hold

theorem UniqueKeys.sublist (hunique : (Value.object entries).UniqueKeys) {kept : Object}
    (hkept : kept.Sublist entries) : (Value.object kept).UniqueKeys :=
  uniqueKeys_object_iff.2
    ⟨hunique.nodup.sublist (hkept.map Prod.fst), fun _ hmem => hunique.of_mem (hkept.subset hmem)⟩

theorem UniqueKeys.update {base later : Object} (hbase : (Value.object base).UniqueKeys)
    (hlater : ∀ entry ∈ later, entry.2.UniqueKeys) :
    (Value.object (Entries.update base later)).UniqueKeys := by
  induction later generalizing base with
  | nil => exact hbase
  | cons entry rest ih =>
      rw [List.forall_mem_cons] at hlater
      exact ih (hbase.insert hlater.1) hlater.2

end DesignTokens.Value

namespace DesignTokens.Tree

open DesignTokens.Value

mutual

/-- Objects with each key once merge to such an object. -/
theorem uniqueKeys_merge {base : Object} (upper : List (String × Value))
    (hbase : (Value.object base).UniqueKeys) (hupper : (Value.object upper).UniqueKeys) :
    (Value.object (merge base upper)).UniqueKeys := by
  cases upper with
  | nil => rwa [merge_nil]
  | cons entry rest =>
      obtain ⟨key, value⟩ := entry
      rw [merge_cons]
      apply uniqueKeys_merge rest _ hupper.tail
      apply hbase.insert
      apply uniqueKeys_overlay value _ (hupper.of_mem List.mem_cons_self)
      exact fun old hold => hbase.of_get? hold
termination_by structural upper

theorem uniqueKeys_overlay {old : Option Value} (value : Value)
    (hold : ∀ base, old = some base → base.UniqueKeys) (hvalue : value.UniqueKeys) :
    (overlay old value).UniqueKeys := by
  cases value with
  | object upper =>
      cases old with
      | none => exact hvalue
      | some base =>
          cases base with
          | object base =>
              rw [overlay_object]
              exact uniqueKeys_merge upper (hold _ rfl) hvalue
          | _ => exact hvalue
  | _ => exact hvalue
termination_by structural value

end

end DesignTokens.Tree
