import Mathlib.Data.List.Induction
import Mathlib.Data.List.Nodup
import DesignTokens.Entries

/-!
# Entries made of pairs

A list of pairs can name a key more than once. The entries made of it have each key
once: its place is that of the first pair, its value that of the last.
-/

namespace DesignTokens.Entries

variable {α β : Type} [BEq α]

theorem update_append_singleton (base pairs : List (α × β)) (key : α) (value : β) :
    update base (pairs ++ [(key, value)]) = insert (update base pairs) key value := by
  simp [update]

theorem ofList_append_singleton (pairs : List (α × β)) (key : α) (value : β) :
    ofList (pairs ++ [(key, value)]) = insert (ofList pairs) key value :=
  update_append_singleton [] pairs key value

theorem insert_ne_nil (entries : List (α × β)) (key : α) (value : β) :
    insert entries key value ≠ [] := by
  cases entries with
  | nil => simp [insert]
  | cons entry rest =>
      rw [insert]
      split
      · simp
      · simp

theorem update_eq_nil_iff {base later : List (α × β)} :
    update base later = [] ↔ base = [] ∧ later = [] := by
  induction later using List.reverseRecOn with
  | nil => simp [update]
  | append_singleton later last _ =>
      simp [update_append_singleton base later last.1 last.2, insert_ne_nil]

section Laws

variable [LawfulBEq α]

theorem insert_insert (entries : List (α × β)) (key : α) (first second : β) :
    insert (insert entries key first) key second = insert entries key second := by
  induction entries with
  | nil => simp [insert]
  | cons entry rest ih =>
      obtain ⟨k, v⟩ := entry
      by_cases heq : k = key
      · simp [insert, heq]
      · simp [insert, heq, ih]

/-- Inserting what is there already changes nothing. -/
theorem insert_of_get?_eq_some {entries : List (α × β)} {key : α} {value : β}
    (hvalue : get? entries key = some value) : insert entries key value = entries := by
  induction entries with
  | nil => simp at hvalue
  | cons entry rest ih =>
      obtain ⟨k, v⟩ := entry
      by_cases heq : k = key
      · have hsame : v = value := by simpa [get?_cons, heq] using hvalue
        simp [insert, heq, hsame]
      · have hrest : get? rest key = some value := by simpa [get?_cons, heq] using hvalue
        simp [insert, heq, ih hrest]

theorem eq_or_mem_of_mem_insert {entries : List (α × β)} {key : α} {value : β} {entry : α × β}
    (hmem : entry ∈ insert entries key value) : entry = (key, value) ∨ entry ∈ entries := by
  induction entries with
  | nil => exact .inl (List.mem_singleton.1 hmem)
  | cons first rest ih =>
      obtain ⟨k, v⟩ := first
      by_cases heq : k = key
      · simp only [insert, heq, beq_self_eq_true, if_true, List.mem_cons] at hmem
        exact hmem.imp_right (List.mem_cons_of_mem _)
      · simp only [insert, beq_iff_eq, heq, if_false, List.mem_cons] at hmem
        rcases hmem with rfl | hrest
        · exact .inr List.mem_cons_self
        · exact (ih hrest).imp_right (List.mem_cons_of_mem _)

/-- A filter that looks at the keys only keeps the value of a key or drops the key. -/
theorem get?_filter (p : α → Bool) (entries : List (α × β)) (key : α) :
    get? (entries.filter fun entry => p entry.1) key =
      if p key then get? entries key else none := by
  induction entries with
  | nil => simp
  | cons entry rest ih =>
      obtain ⟨k, value⟩ := entry
      by_cases hkey : k = key
      · subst hkey
        by_cases hp : p k <;> simp [get?_cons, hp, ih]
      · by_cases hp : p k <;> simp [get?_cons, hp, hkey, ih]

theorem get?_erase (entries : List (α × β)) (key other : α) :
    get? (erase entries key) other = if key == other then none else get? entries other := by
  rw [erase, get?_filter fun k => !(k == key), BEq.comm]
  cases key == other <;> rfl

theorem contains_cons (k : α) (v : β) (rest : List (α × β)) (key : α) :
    contains ((k, v) :: rest) key = (k == key || contains rest key) := by
  rw [contains, get?_cons]
  cases k == key <;> rfl

theorem contains_insert (entries : List (α × β)) (key : α) (value : β) (other : α) :
    contains (insert entries key value) other = (key == other || contains entries other) := by
  rw [contains, get?_insert]
  cases key == other <;> rfl

/-- The keys stand in the order of their first pairs. -/
theorem keys_ofList (pairs : List (α × β)) :
    keys (ofList pairs) = (pairs.map Prod.fst).eraseDups := by
  induction pairs using List.reverseRecOn with
  | nil => rfl
  | append_singleton pairs last ih =>
      obtain ⟨key, value⟩ := last
      rw [ofList_append_singleton, List.map_append, List.eraseDups_append, ← ih]
      by_cases hmem : key ∈ keys (ofList pairs)
      · have hold : key ∈ pairs.map Prod.fst := by rwa [ih, List.mem_eraseDups] at hmem
        rw [keys_insert_of_mem hmem]
        simp [List.removeAll, -List.mem_map, hold]
      · have hnew : key ∉ pairs.map Prod.fst := by rwa [ih, List.mem_eraseDups] at hmem
        rw [keys_insert_of_not_mem hmem]
        simp [List.removeAll, -List.mem_map, hnew, List.eraseDups_cons]

/-- The value of a key is that of its last pair. -/
theorem eq_append_of_get?_ofList {pairs : List (α × β)} {key : α} {value : β}
    (hvalue : get? (ofList pairs) key = some value) :
    ∃ before after, pairs = before ++ (key, value) :: after ∧ key ∉ keys after := by
  induction pairs using List.reverseRecOn with
  | nil => simp [ofList, update] at hvalue
  | append_singleton pairs last ih =>
      obtain ⟨k, v⟩ := last
      rw [ofList_append_singleton, get?_insert] at hvalue
      by_cases heq : k = key
      · have hsame : v = value := by simpa [heq] using hvalue
        subst hsame
        exact ⟨pairs, [], by simp [heq], by simp [keys]⟩
      · have hold : get? (ofList pairs) key = some value := by simpa [heq] using hvalue
        obtain ⟨before, after, rfl, hnew⟩ := ih hold
        have hlater : key ∉ keys (after ++ [(k, v)]) := by
          simpa [keys, Ne.symm heq] using hnew
        exact ⟨before, after ++ [(k, v)], by simp, hlater⟩

/-- Pairs with a key each are entries as they stand. -/
theorem ofList_eq_self {pairs : List (α × β)} (hnodup : (keys pairs).Nodup) :
    ofList pairs = pairs := by
  induction pairs using List.reverseRecOn with
  | nil => rfl
  | append_singleton pairs last ih =>
      obtain ⟨key, value⟩ := last
      rw [keys, List.map_append, List.nodup_append] at hnodup
      obtain ⟨hpairs, -, hnew⟩ := hnodup
      have hkey : get? pairs key = none :=
        get?_eq_none_iff.2 fun hmem => hnew key hmem key (by simp) rfl
      rw [ofList_append_singleton, ih hpairs, insert_of_get?_eq_none hkey]

/-- Looking up the keys of some entries among others finds those whose key is in both. -/
theorem filterMap_get?_perm {γ : Type} {first : List (α × γ)} {second : List (α × β)}
    (hfirst : (keys first).Nodup) (hsecond : (keys second).Nodup) :
    (first.filterMap fun entry => (get? second entry.1).map fun value => (entry.1, value)).Perm
      (second.filter fun entry => contains first entry.1) := by
  rw [List.perm_ext_iff_of_nodup]
  · intro entry
    rw [List.mem_filterMap, List.mem_filter, contains, isSome_get?_iff]
    constructor
    · rintro ⟨other, hother, hfound⟩
      obtain ⟨value, hvalue, rfl⟩ := Option.map_eq_some_iff.1 hfound
      exact ⟨mem_of_get?_eq_some hvalue, List.mem_map_of_mem hother⟩
    · rintro ⟨hentry, hkey⟩
      obtain ⟨other, hother, hsame⟩ := List.mem_map.1 hkey
      refine ⟨other, hother, ?_⟩
      rw [hsame, get?_eq_some_of_mem hsecond hentry, Option.map_some]
  · rw [keys, List.Nodup, List.pairwise_map] at hfirst
    apply hfirst.filterMap
    intro a b hne c hc d hd hsame
    obtain ⟨_, -, rfl⟩ := Option.map_eq_some_iff.1 hc
    obtain ⟨_, -, rfl⟩ := Option.map_eq_some_iff.1 hd
    exact hne (Prod.mk.inj hsame).1
  · exact (List.Nodup.of_map Prod.fst hsecond).filter _

/-- The entries whose values a partial function takes to something, under their keys. -/
def collect {γ : Type} (f : β → Option γ) (entries : List (α × β)) : List (α × γ) :=
  entries.filterMap fun entry => (f entry.2).map fun value => (entry.1, value)

omit [BEq α] [LawfulBEq α] in
theorem keys_collect {γ : Type} (f : β → Option γ) (entries : List (α × β)) :
    keys (collect f entries) = keys (entries.filter fun entry => (f entry.2).isSome) := by
  induction entries with
  | nil => rfl
  | cons entry rest ih =>
      rw [collect, List.filterMap_cons, List.filter_cons]
      cases f entry.2 with
      | none => exact ih
      | some value => exact congrArg (entry.1 :: ·) ih

omit [BEq α] [LawfulBEq α] in
theorem keys_collect_sublist {γ : Type} (f : β → Option γ) (entries : List (α × β)) :
    (keys (collect f entries)).Sublist (keys entries) := by
  rw [keys_collect]
  exact List.filter_sublist.map Prod.fst

omit [BEq α] [LawfulBEq α] in
theorem collect_append {γ : Type} (f : β → Option γ) (first second : List (α × β)) :
    collect f (first ++ second) = collect f first ++ collect f second :=
  List.filterMap_append

omit [BEq α] [LawfulBEq α] in
/-- Renaming the keys does not touch the values. -/
theorem collect_map {γ δ : Type} (f : β → Option γ) (g : α → δ) (entries : List (α × β)) :
    collect f (entries.map fun entry => (g entry.1, entry.2)) =
      (collect f entries).map fun entry => (g entry.1, entry.2) := by
  rw [collect, collect, List.filterMap_map, List.map_filterMap]
  apply List.filterMap_congr
  intro entry _
  cases hvalue : f entry.2 <;> simp [hvalue]

omit [BEq α] [LawfulBEq α] in
/-- The entries of a kind are the same if their values are kept and no value changes its kind. -/
theorem filter_collect {f : β → Option β} {p : β → Bool}
    (hkept : ∀ value, p value = true → f value = some value)
    (hkind : ∀ value other, f value = some other → p other = p value)
    (entries : List (α × β)) :
    (collect f entries).filter (fun entry => p entry.2) =
      entries.filter fun entry => p entry.2 := by
  induction entries with
  | nil => rfl
  | cons entry rest ih =>
      rw [collect] at ih ⊢
      rw [List.filterMap_cons, List.filter_cons]
      cases hp : p entry.2 with
      | true =>
          rw [hkept entry.2 hp]
          simp [hp, ih]
      | false =>
          cases hvalue : f entry.2 with
          | none => simpa [hvalue] using ih
          | some other => simpa [hkind entry.2 other hvalue, hp] using ih

theorem get?_collect {γ : Type} (f : β → Option γ) {entries : List (α × β)}
    (hnodup : (keys entries).Nodup) (key : α) :
    get? (collect f entries) key = (get? entries key).bind f := by
  induction entries with
  | nil => rfl
  | cons entry rest ih =>
      obtain ⟨hnew, hrest⟩ := List.nodup_cons.1 hnodup
      have hlater := ih hrest
      rw [collect] at hlater ⊢
      rw [List.filterMap_cons, get?_cons]
      by_cases hkey : entry.1 = key
      · subst hkey
        rw [if_pos (beq_self_eq_true entry.1), Option.bind_some]
        cases f entry.2 with
        | none =>
            dsimp only [Option.map_none]
            rw [hlater, get?_eq_none_iff.2 hnew]
            rfl
        | some value =>
            dsimp only [Option.map_some]
            rw [get?_cons, if_pos (beq_self_eq_true entry.1)]
      · have hother : ¬ (entry.1 == key) = true := by simpa using hkey
        rw [if_neg hother]
        cases f entry.2 with
        | none => exact hlater
        | some value =>
            dsimp only [Option.map_some]
            rw [get?_cons, if_neg hother, hlater]

end Laws

/-! ## The last entry of a key -/

/-- The value of the last entry of a key. -/
def last? (entries : List (α × β)) (key : α) : Option β :=
  get? entries.reverse key

theorem last?_append (first second : List (α × β)) (key : α) :
    last? (first ++ second) key = (last? second key).or (last? first key) := by
  rw [last?, List.reverse_append, get?, List.lookup_append]
  rfl

theorem last?_flatMap {γ : Type} (f : γ → List (α × β)) (xs : List γ) (key : α) :
    last? (xs.flatMap f) key = xs.reverse.findSome? fun x => last? (f x) key := by
  induction xs with
  | nil => rfl
  | cons x xs ih =>
      rw [List.flatMap_cons, last?_append, ih, List.reverse_cons, List.findSome?_append,
        List.findSome?_singleton]

section Laws

variable [LawfulBEq α]

theorem last?_eq_none_iff {entries : List (α × β)} {key : α} :
    last? entries key = none ↔ key ∉ keys entries := by
  rw [last?, get?_eq_none_iff, keys, List.map_reverse, List.mem_reverse, keys]

/-- An entry of a key that occurs once is the last one. -/
theorem last?_eq_some_iff_mem {entries : List (α × β)} (hnodup : (keys entries).Nodup) {key : α}
    {value : β} : last? entries key = some value ↔ (key, value) ∈ entries := by
  rw [← List.mem_reverse]
  constructor
  · exact mem_of_get?_eq_some
  · apply get?_eq_some_of_mem
    rwa [keys, List.map_reverse, List.nodup_reverse]

theorem last?_eq_get? {entries : List (α × β)} (hnodup : (keys entries).Nodup) (key : α) :
    last? entries key = get? entries key := by
  ext value
  rw [last?_eq_some_iff_mem hnodup]
  exact ⟨get?_eq_some_of_mem hnodup, mem_of_get?_eq_some⟩

theorem last?_filter (p : α → Bool) (entries : List (α × β)) (key : α) :
    last? (entries.filter fun entry => p entry.1) key =
      if p key then last? entries key else none := by
  rw [last?, ← List.filter_reverse, get?_filter, last?]

/-- Entries whose keys are renamed one to one keep their order. -/
theorem last?_map {γ δ : Type} [BEq γ] [LawfulBEq γ] {f : α → γ} (hf : Function.Injective f)
    (g : α × β → δ) (entries : List (α × β)) (key : α) :
    last? (entries.map fun entry => (f entry.1, g entry)) (f key) =
      (last? entries key).map fun value => g (key, value) := by
  induction entries using List.reverseRecOn with
  | nil => rfl
  | append_singleton entries last ih =>
      obtain ⟨k, v⟩ := last
      rw [List.map_append, last?_append, last?_append, ih]
      by_cases heq : k = key
      · subst heq
        simp [last?, get?_cons]
      · have hne : f k ≠ f key := fun hsame => heq (hf hsame)
        simp [last?, get?_cons, heq, hne]

theorem last?_eq_find? (p : β → Bool) (key : β → α) (xs : List β) (k : α) :
    last? ((xs.filter p).map fun x => (key x, x)) k =
      xs.reverse.find? fun x => p x && key x == k := by
  induction xs using List.reverseRecOn with
  | nil => rfl
  | append_singleton xs x ih =>
      rw [List.filter_append, List.map_append, last?_append, ih, List.reverse_append,
        List.reverse_singleton, List.singleton_append, List.find?_cons]
      cases hkept : p x with
      | false => simp [last?, hkept]
      | true =>
          by_cases heq : key x = k
          · simp [last?, get?_cons, hkept, heq]
          · simp [last?, get?_cons, hkept, beq_false_of_ne heq]

/-- A key that is written again has the value of the last write. -/
theorem get?_update (base later : List (α × β)) (key : α) :
    get? (update base later) key = (last? later key).or (get? base key) := by
  induction later using List.reverseRecOn with
  | nil => rfl
  | append_singleton later last ih =>
      obtain ⟨k, v⟩ := last
      rw [update_append_singleton, get?_insert, ih, last?_append]
      by_cases heq : k = key
      · simp [last?, get?_cons, heq]
      · simp [last?, get?_cons, heq]

theorem get?_update_of_nodup {base later : List (α × β)} (hnodup : (keys later).Nodup) (key : α) :
    get? (update base later) key = (get? later key).or (get? base key) := by
  rw [get?_update, last?_eq_get? hnodup]

theorem get?_ofList (pairs : List (α × β)) (key : α) :
    get? (ofList pairs) key = last? pairs key := by
  rw [ofList, get?_update, get?_nil, Option.or_none]

/-- Entries that are paired at the same keys are paired in every lookup. -/
theorem rel_get?_of_forall₂ {γ : Type} {R : α → β → γ → Prop} {first : List (α × β)}
    {second : List (α × γ)} (hpaired : List.Forall₂
      (fun entry other => other.1 = entry.1 ∧ R entry.1 entry.2 other.2) first second) (key : α) :
    Option.Rel (R key) (get? first key) (get? second key) := by
  induction hpaired with
  | nil => exact .none
  | @cons entry other _ _ hentry _ ih =>
      rw [get?_cons, get?_cons, hentry.1]
      by_cases heq : entry.1 = key
      · subst heq
        simp only [BEq.rfl, if_true]
        exact .some hentry.2
      · simp only [beq_iff_eq, heq, if_false]
        exact ih

/-- Among the items of a kind, the last one with a key. -/
theorem last?_filter_eq_some_iff {p : β → Bool} {key : β → α} {xs : List β} {k : α} {x : β} :
    last? ((xs.filter p).map fun x => (key x, x)) k = some x ↔
      ∃ before after, xs = before ++ x :: after ∧ p x = true ∧ key x = k ∧
        ∀ y ∈ after, p y = true → key y ≠ k := by
  rw [last?_eq_find?, List.find?_eq_some_iff_append]
  simp only [Bool.and_eq_true, beq_iff_eq, Bool.not_eq_true', Bool.and_eq_false_imp,
    beq_eq_false_iff_ne]
  constructor
  · rintro ⟨⟨hkind, hkey⟩, after, before, hxs, hafter⟩
    refine ⟨before.reverse, after.reverse, ?_, hkind, hkey, by simpa using hafter⟩
    simpa using congrArg List.reverse hxs
  · rintro ⟨before, after, rfl, hkind, hkey, hafter⟩
    exact ⟨⟨hkind, hkey⟩, after.reverse, before.reverse, by simp, by simpa using hafter⟩

end Laws

end DesignTokens.Entries
