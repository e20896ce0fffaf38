import DesignTokens.Proofs.Files.Loaded
import DesignTokens.Proofs.Resolution.Uniqueness

/-!
# Inside resolved values

References are replaced each at its own place, so a list keeps its items and an object its
keys in their order. In the resolved values of a loaded dictionary, as in the authored ones,
no object names a key twice.
-/

namespace DesignTokens.Value

/-! ## References of a value and of what is in it -/

theorem itemReferences_eq_flatMap (items : List Value) :
    itemReferences items = items.flatMap references := by
  induction items with
  | nil => rfl
  | cons item rest ih => rw [itemReferences, ih, List.flatMap_cons]

theorem entryReferences_eq_flatMap (entries : Object) :
    entryReferences entries = entries.flatMap fun entry => entry.2.references := by
  induction entries with
  | nil => rfl
  | cons entry rest ih => rw [entryReferences, ih, List.flatMap_cons]

theorem usesReferences_eq_false_iff {v : Value} :
    v.usesReferences = false ↔ v.references = [] := by
  simp [usesReferences]

theorem references_eq_nil_of_get? {entries : Object}
    (hplain : (Value.object entries).references = []) {key : String} {value : Value}
    (hvalue : Entries.get? entries key = some value) :
    value.references = [] := by
  rw [references, entryReferences_eq_flatMap, List.flatMap_eq_nil_iff] at hplain
  exact hplain _ (Entries.mem_of_get?_eq_some hvalue)

theorem alias?_eq_none_of_references {v : Value} (hplain : v.references = []) :
    v.alias? = none := by
  cases v with
  | text s =>
      cases halias : Reference.alias? s with
      | none => exact halias
      | some reference =>
          rw [references, Reference.targets_of_alias? halias] at hplain
          cases hplain
  | _ => rfl

theorem usesReferences_of_alias? {v : Value} {reference : String}
    (halias : v.alias? = some reference) : v.usesReferences = true := by
  cases hplain : v.references with
  | nil =>
      rw [alias?_eq_none_of_references hplain] at halias
      cases halias
  | cons _ _ => simp [usesReferences, hplain]

/-! ## Members of resolved values -/

variable {lookup : TokenPath → Option Value}

theorem itemsReplaced_iff {items values : List Value} :
    ItemsReplaced lookup items values ↔ List.Forall₂ (Replaced lookup) items values := by
  induction items generalizing values with
  | nil => rw [ItemsReplaced, List.forall₂_nil_left_iff]
  | cons item rest ih =>
      simp only [ItemsReplaced, List.forall₂_cons_left_iff, ih]
      apply exists₂_congr
      intro first others
      tauto

theorem entriesReplaced_iff {entries values : Object} :
    EntriesReplaced lookup entries values ↔ List.Forall₂
      (fun entry value => value.1 = entry.1 ∧ Replaced lookup entry.2 value.2) entries values := by
  induction entries generalizing values with
  | nil => rw [EntriesReplaced, List.forall₂_nil_left_iff]
  | cons entry rest ih =>
      simp only [EntriesReplaced, List.forall₂_cons_left_iff, ih, Prod.exists]
      constructor
      · rintro ⟨first, others, rfl, hfirst, hothers⟩
        exact ⟨_, first, others, ⟨rfl, hfirst⟩, hothers, rfl⟩
      · rintro ⟨_, first, others, ⟨rfl, hfirst⟩, hothers, rfl⟩
        exact ⟨first, others, rfl, hfirst, hothers⟩

theorem keys_of_entriesReplaced {entries values : Object}
    (hreplaced : EntriesReplaced lookup entries values) :
    Entries.keys values = Entries.keys entries :=
  Paired.map_eq_map (entriesReplaced_iff.1 hreplaced) fun _ _ hentry => hentry.1

/-- The resolved member of an object is the authored one with its references replaced. -/
theorem get?_of_entriesReplaced {entries values : Object}
    (hreplaced : EntriesReplaced lookup entries values) (key : String) :
    Option.Rel (Replaced lookup) (Entries.get? entries key) (Entries.get? values key) :=
  Entries.rel_get?_of_forall₂ (R := fun _ => Replaced lookup) (entriesReplaced_iff.1 hreplaced) key

mutual

/-- Where the values of tokens name no key twice, replacing references adds no second key. -/
theorem Replaced.uniqueKeys
    (hlookup : ∀ path value, lookup path = some value → value.UniqueKeys) (authored : Value)
    {value : Value} (hunique : authored.UniqueKeys) (hreplaced : Replaced lookup authored value) :
    value.UniqueKeys := by
  cases authored with
  | text s =>
      rcases hreplaced with ⟨reference, -, hvalue⟩ | ⟨-, out, -, rfl⟩
      · exact hlookup _ _ hvalue
      · trivial
  | list items =>
      obtain ⟨values, rfl, hitems⟩ := hreplaced
      exact ItemsReplaced.itemsUnique hlookup items hunique hitems
  | object entries =>
      obtain ⟨values, rfl, hentries⟩ := hreplaced
      refine ⟨?_, EntriesReplaced.entriesUnique hlookup entries hunique.2 hentries⟩
      rw [keys_of_entriesReplaced hentries]
      exact hunique.1
  | _ =>
      rw [hreplaced]
      trivial
termination_by structural authored

theorem ItemsReplaced.itemsUnique
    (hlookup : ∀ path value, lookup path = some value → value.UniqueKeys) (items : List Value)
    {values : List Value} (hunique : ItemsUnique items)
    (hreplaced : ItemsReplaced lookup items values) : ItemsUnique values := by
  cases items with
  | nil =>
      rw [hreplaced]
      trivial
  | cons item rest =>
      obtain ⟨first, others, rfl, hfirst, hothers⟩ := hreplaced
      exact ⟨Replaced.uniqueKeys hlookup item hunique.1 hfirst,
        ItemsReplaced.itemsUnique hlookup rest hunique.2 hothers⟩
termination_by structural items

theorem EntriesReplaced.entriesUnique
    (hlookup : ∀ path value, lookup path = some value → value.UniqueKeys)
    (entries : List (String × Value)) {values : Object} (hunique : EntriesUnique entries)
    (hreplaced : EntriesReplaced lookup entries values) : EntriesUnique values := by
  cases entries with
  | nil =>
      rw [hreplaced]
      trivial
  | cons entry rest =>
      obtain ⟨first, others, rfl, hfirst, hothers⟩ := hreplaced
      exact ⟨Replaced.uniqueKeys hlookup entry.2 hunique.1 hfirst,
        EntriesReplaced.entriesUnique hlookup rest hunique.2 hothers⟩
termination_by structural entries

end

end DesignTokens.Value

namespace DesignTokens

theorem Resolution.Settled.uniqueKeys {tokens : List Authored} {known : Known}
    (htokens : ∀ token ∈ tokens, token.value.UniqueKeys) (hknown : Settled tokens known) :
    ∀ path value, Entries.get? known path = some value → value.UniqueKeys := by
  induction hknown with
  | nil =>
      intro path value hvalue
      cases hvalue
  | snoc _ hmem hnew hlast ih =>
      intro path value hvalue
      rw [← Entries.insert_of_get?_eq_none hnew, Entries.get?_insert] at hvalue
      split at hvalue
      · cases hvalue
        exact hlast.uniqueKeys ih _ (htokens _ hmem)
      · exact ih path value hvalue

/-- An alias stands for a token with the resolved value. -/
theorem Dictionary.exists_target_of_alias? {dictionary : Dictionary} {original resolved : Value}
    {reference : String} (halias : original.alias? = some reference)
    (hreplaced : original.Replaced (Resolution.valueAt? dictionary.tokens) resolved) :
    ∃ target, dictionary.get? (Reference.path reference) = some target ∧
      target.value = resolved := by
  cases original with
  | text s =>
      rw [Value.alias?, Reference.alias?_eq_some_iff] at halias
      obtain ⟨found, hfound, hvalue⟩ | ⟨hnone, -⟩ := hreplaced
      · obtain rfl := halias.unique hfound
        exact Option.map_eq_some_iff.1 hvalue
      · exact absurd halias (hnone reference)
  | _ => cases halias

namespace Loading

variable {dictionary : Dictionary} {token : Token}

/-- No object in a value of a loaded dictionary names a key twice. -/
theorem IsLoaded.uniqueKeys_value (hloaded : IsLoaded dictionary)
    (htoken : token ∈ dictionary.tokens) : token.value.UniqueKeys := by
  obtain ⟨tokens, lead, hout, hunique⟩ := hloaded.exists_resolve
  obtain ⟨known, hknown, hpairs⟩ := Resolution.settled_of_resolve hout
  obtain ⟨authored, -, -, hvalue⟩ := Paired.exists_of_mem_right hpairs htoken
  apply hknown.uniqueKeys _ _ _ hvalue
  intro other hother
  obtain ⟨before, after, rfl, -⟩ := Resolution.isLast_of_mem_distinct hother
  exact hunique other (by simp)

end Loading

end DesignTokens
