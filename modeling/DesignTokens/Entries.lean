/-!
# Keyed entries in insertion order

Objects, dictionaries of tokens and tables of modes all keep their entries in the
order of first insertion. A key that is inserted again keeps its place and takes
the new value, so order never depends on how often a key was written.
-/

namespace DesignTokens.Entries

variable {α β : Type} [BEq α]

def get? (entries : List (α × β)) (key : α) : Option β :=
  entries.lookup key

def contains (entries : List (α × β)) (key : α) : Bool :=
  (get? entries key).isSome

def keys (entries : List (α × β)) : List α :=
  entries.map Prod.fst

def values (entries : List (α × β)) : List β :=
  entries.map Prod.snd

/-- The entries with `value` at `key`: in place if the key is there, else at the
end. -/
def insert : List (α × β) → α → β → List (α × β)
  | [], key, value => [(key, value)]
  | (k, v) :: rest, key, value =>
    if k == key then (k, value) :: rest else (k, v) :: insert rest key value

def erase (entries : List (α × β)) (key : α) : List (α × β) :=
  entries.filter fun (k, _) => !(k == key)

/-- `base` with every entry of `later` inserted in turn. -/
def update (base later : List (α × β)) : List (α × β) :=
  later.foldl (fun entries (key, value) => insert entries key value) base

/-- Entries with one place per key: the first place and the last value. -/
def ofList (pairs : List (α × β)) : List (α × β) :=
  update [] pairs

@[simp]
theorem get?_nil (key : α) : get? ([] : List (α × β)) key = none := rfl

theorem get?_append_of_eq_some {entries : List (α × β)} {key : α} {value : β}
    (hvalue : get? entries key = some value) (more : List (α × β)) :
    get? (entries ++ more) key = some value := by
  rw [get?, List.lookup_append, ← get?, hvalue, Option.some_or]

section Laws

variable [LawfulBEq α]

theorem get?_cons (k : α) (v : β) (rest : List (α × β)) (key : α) :
    get? ((k, v) :: rest) key = if k == key then some v else get? rest key := by
  rw [get?, List.lookup_cons, BEq.comm]
  cases k == key <;> rfl

theorem get?_insert (entries : List (α × β)) (key : α) (value : β) (other : α) :
    get? (insert entries key value) other =
      if key == other then some value else get? entries other := by
  induction entries with
  | nil => simp [insert, get?_cons]
  | cons entry rest ih =>
      obtain ⟨k, v⟩ := entry
      by_cases heq : k = key
      · subst heq
        by_cases hother : k = other <;> simp [insert, get?_cons, hother]
      · by_cases hother : k = other
        · subst hother
          have hkey : key ≠ k := fun h => heq h.symm
          simp [insert, get?_cons, heq, hkey]
        · simp [insert, get?_cons, heq, hother, ih]

/-- A new key is inserted behind all others. -/
theorem insert_of_get?_eq_none {entries : List (α × β)} {key : α}
    (hnew : get? entries key = none) (value : β) :
    insert entries key value = entries ++ [(key, value)] := by
  induction entries with
  | nil => rfl
  | cons entry rest ih =>
      obtain ⟨k, v⟩ := entry
      by_cases heq : k = key
      · simp [get?_cons, heq] at hnew
      · have hrest : get? rest key = none := by simpa [get?_cons, heq] using hnew
        simpa [insert, heq] using ih hrest

theorem mem_keys_insert (entries : List (α × β)) (key : α) (value : β) (other : α) :
    other ∈ keys (insert entries key value) ↔ other = key ∨ other ∈ keys entries := by
  induction entries with
  | nil => simp [insert, keys]
  | cons entry rest ih =>
      obtain ⟨k, v⟩ := entry
      by_cases heq : k = key
      · subst heq
        simp [insert, keys]
      · simp only [keys] at ih
        simp only [insert, beq_iff_eq, heq, if_false, keys, List.map_cons, List.mem_cons, ih]
        rw [or_left_comm]

/-- An insertion at a key that is there keeps the keys and their order. -/
theorem keys_insert_of_mem {entries : List (α × β)} {key : α} (hmem : key ∈ keys entries)
    (value : β) : keys (insert entries key value) = keys entries := by
  induction entries with
  | nil => simp [keys] at hmem
  | cons entry rest ih =>
      obtain ⟨k, v⟩ := entry
      by_cases heq : k = key
      · simp [insert, keys, heq]
      · have hne : key ≠ k := fun h => heq h.symm
        have hrest : key ∈ keys rest := by simpa [keys, hne] using hmem
        simpa [insert, keys, heq] using ih hrest

/-- An insertion at a new key adds it behind all others. -/
theorem keys_insert_of_not_mem {entries : List (α × β)} {key : α}
    (hnew : key ∉ keys entries) (value : β) :
    keys (insert entries key value) = keys entries ++ [key] := by
  induction entries with
  | nil => simp [insert, keys]
  | cons entry rest ih =>
      obtain ⟨k, v⟩ := entry
      have hne : k ≠ key := fun h => hnew (by simp [keys, h])
      have hrest : key ∉ keys rest := fun h => hnew (by
        simp only [keys, List.map_cons, List.mem_cons]
        exact Or.inr h)
      simpa [insert, keys, hne] using ih hrest

theorem nodup_keys_insert {entries : List (α × β)} (hnodup : (keys entries).Nodup)
    (key : α) (value : β) : (keys (insert entries key value)).Nodup := by
  by_cases hmem : key ∈ keys entries
  · rwa [keys_insert_of_mem hmem]
  · rw [keys_insert_of_not_mem hmem]
    refine List.nodup_append.2 ⟨hnodup, by simp, ?_⟩
    intro a ha b hb heq
    simp only [List.mem_singleton] at hb
    exact hmem (hb ▸ heq ▸ ha)

theorem nodup_keys_update {base : List (α × β)} (hnodup : (keys base).Nodup)
    (later : List (α × β)) : (keys (update base later)).Nodup := by
  induction later generalizing base with
  | nil => exact hnodup
  | cons entry rest ih => exact ih (nodup_keys_insert hnodup entry.1 entry.2)

theorem nodup_keys_ofList (pairs : List (α × β)) : (keys (ofList pairs)).Nodup :=
  nodup_keys_update (by simp [keys]) pairs

theorem isSome_get?_iff (entries : List (α × β)) (key : α) :
    (get? entries key).isSome ↔ key ∈ keys entries := by
  induction entries with
  | nil => simp [keys]
  | cons entry rest ih =>
      obtain ⟨k, v⟩ := entry
      by_cases heq : k = key
      · simp [get?_cons, keys, heq]
      · have hne : key ≠ k := fun h => heq h.symm
        simpa [get?_cons, keys, heq, hne] using ih

theorem mem_of_get?_eq_some {entries : List (α × β)} {key : α} {value : β}
    (hvalue : get? entries key = some value) : (key, value) ∈ entries := by
  induction entries with
  | nil => simp at hvalue
  | cons entry rest ih =>
      obtain ⟨k, v⟩ := entry
      by_cases heq : k = key
      · have hsame : v = value := by simpa [get?_cons, heq] using hvalue
        subst hsame
        simp [heq]
      · exact List.mem_cons_of_mem _ (ih (by simpa [get?_cons, heq] using hvalue))

theorem get?_eq_none_iff {entries : List (α × β)} {key : α} :
    get? entries key = none ↔ key ∉ keys entries := by
  rw [← isSome_get?_iff, Bool.not_eq_true, Option.isSome_eq_false_iff,
    Option.isNone_iff_eq_none]

theorem get?_eq_some_of_mem {entries : List (α × β)} (hnodup : (keys entries).Nodup) {key : α}
    {value : β} (hmem : (key, value) ∈ entries) : get? entries key = some value := by
  induction entries with
  | nil => simp at hmem
  | cons entry rest ih =>
      obtain ⟨k, v⟩ := entry
      have hnew : k ∉ keys rest := (List.nodup_cons.1 hnodup).1
      rcases List.mem_cons.1 hmem with hfirst | hrest
      · obtain ⟨rfl, rfl⟩ := Prod.mk.inj hfirst
        simp [get?_cons]
      · have hne : k ≠ key := fun h => hnew (h ▸ List.mem_map_of_mem hrest)
        simpa [get?_cons, hne] using ih (List.nodup_cons.1 hnodup).2 hrest

end Laws

end DesignTokens.Entries
