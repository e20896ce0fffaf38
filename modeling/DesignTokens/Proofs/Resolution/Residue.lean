import Mathlib.Logic.Relation
import DesignTokens.Proofs.Resolution.Cycles
import DesignTokens.Proofs.Resolution.Members

/-!
# References that stay in resolved values

What is put in the place of a reference is not read again. Braces around a reference, or braces
in the text of the value that it names, can make a new reference with what stands beside them,
and aliases hand it on. A value that is resolved has references exactly if it comes by aliases
from such a text.
-/

namespace DesignTokens

namespace Value

/-! ## Texts inside a value -/

mutual

/-- The texts in a value, at every depth. -/
def texts : Value → List String
  | .text s => [s]
  | .list items => textsOfItems items
  | .object entries => textsOfEntries entries
  | _ => []
termination_by structural v => v

def textsOfItems : List Value → List String
  | [] => []
  | item :: rest => item.texts ++ textsOfItems rest
termination_by structural items => items

def textsOfEntries : List (String × Value) → List String
  | [] => []
  | (_, value) :: rest => value.texts ++ textsOfEntries rest
termination_by structural entries => entries

end

mutual

theorem references_eq_flatMap_texts (v : Value) :
    v.references = v.texts.flatMap Reference.targets := by
  cases v with
  | text s => simp [references, texts]
  | list items => exact itemReferences_eq_flatMap_texts items
  | object entries => exact entryReferences_eq_flatMap_texts entries
  | _ => rfl
termination_by structural v

theorem itemReferences_eq_flatMap_texts (items : List Value) :
    itemReferences items = (textsOfItems items).flatMap Reference.targets := by
  cases items with
  | nil => rfl
  | cons item rest =>
      rw [itemReferences, textsOfItems, List.flatMap_append, references_eq_flatMap_texts item,
        itemReferences_eq_flatMap_texts rest]
termination_by structural items

theorem entryReferences_eq_flatMap_texts (entries : List (String × Value)) :
    entryReferences entries = (textsOfEntries entries).flatMap Reference.targets := by
  cases entries with
  | nil => rfl
  | cons entry rest =>
      rw [entryReferences, textsOfEntries, List.flatMap_append,
        references_eq_flatMap_texts entry.2, entryReferences_eq_flatMap_texts rest]
termination_by structural entries

end

end Value

/-! ## Texts that are put together -/

namespace Piece

variable {lookup : TokenPath → Option Value}

theorem exists_joined {pieces : List Piece}
    (hknown : ∀ reference ∈ pieces.filterMap target?,
      ∃ value, lookup (Reference.path reference) = some value) :
    ∃ out, Joined lookup pieces out := by
  induction pieces with
  | nil => exact ⟨[], .nil⟩
  | cons piece rest ih =>
      cases piece with
      | plain chars =>
          obtain ⟨out, hout⟩ := ih hknown
          exact ⟨chars ++ out, .plain hout⟩
      | reference inner =>
          simp only [List.filterMap_cons, target?, List.forall_mem_cons] at hknown
          obtain ⟨value, hvalue⟩ := hknown.1
          obtain ⟨out, hout⟩ := ih hknown.2
          exact ⟨value.embedded.toList ++ out, .reference hvalue hout⟩

/-- Each character of joined pieces stands in a plain piece or in an inserted text. -/
theorem Joined.mem_or {pieces : List Piece} {out : List Char} (hjoined : Joined lookup pieces out)
    {c : Char} (hmem : c ∈ out) :
    (∃ chars, .plain chars ∈ pieces ∧ c ∈ chars) ∨
      ∃ reference ∈ pieces.filterMap target?, ∃ value,
        lookup (Reference.path reference) = some value ∧ c ∈ value.embedded.toList := by
  induction hjoined with
  | nil => cases hmem
  | @plain chars out rest _ ih =>
      rcases List.mem_append.1 hmem with hchars | hout
      · exact .inl ⟨chars, List.mem_cons_self, hchars⟩
      · rcases ih hout with ⟨others, hothers, hc⟩ | hinserted
        · exact .inl ⟨others, List.mem_cons_of_mem _ hothers, hc⟩
        · exact .inr hinserted
  | @reference inner out rest value hvalue _ ih =>
      simp only [List.filterMap_cons, target?, List.exists_mem_cons_iff]
      rcases List.mem_append.1 hmem with hembedded | hout
      · exact .inr (.inl ⟨value, hvalue, hembedded⟩)
      · rcases ih hout with ⟨others, hothers, hc⟩ | hinserted
        · exact .inl ⟨others, List.mem_cons_of_mem _ hothers, hc⟩
        · exact .inr (.inr hinserted)

end Piece

namespace Reference

variable {lookup : TokenPath → Option Value} {text : String}

theorem Expanded.joined {out : List Char} (hexpanded : Expanded lookup text.toList out) :
    Piece.Joined lookup (Piece.ofText text) out := by
  obtain ⟨other, hother⟩ := Piece.exists_joined fun reference => hexpanded.exists_of_mem
  have hsame := (hother.expanded none (by simp)).unique hexpanded
  exact hsame ▸ hother

/-- A text with a reference has both braces. -/
theorem mem_of_targets_ne_nil {brace : Char} (hbrace : brace = '\x7b' ∨ brace = '\x7d')
    (hsome : targets text ≠ []) : brace ∈ text.toList := by
  obtain ⟨reference, hreference⟩ := List.exists_mem_of_ne_nil _ hsome
  obtain ⟨piece, hpiece, htarget⟩ := List.mem_filterMap.1 hreference
  rw [← Piece.source_ofText text, List.mem_flatMap]
  refine ⟨piece, hpiece, ?_⟩
  cases piece with
  | plain chars => cases htarget
  | reference inner => rcases hbrace with rfl | rfl <;> simp [Piece.source]

/-- The text is no alias, and a reference stands in what becomes of it. -/
def Leaves (lookup : TokenPath → Option Value) (text : String) : Prop :=
  (∀ reference, ¬ IsAlias text reference) ∧
    ∃ out, Expanded lookup text.toList out ∧ targets (String.ofList out) ≠ []

theorem Leaves.targets_ne_nil (hleaves : Leaves lookup text) : targets text ≠ [] := by
  obtain ⟨-, out, hout, hsome⟩ := hleaves
  intro hplain
  rw [hout.eq_self hplain, String.ofList_toList] at hsome
  exact hsome hplain

/-- The brace stands neither outside the references of the text nor in what is put in their
places. -/
structure IsFreeOf (lookup : TokenPath → Option Value) (brace : Char) (text : String) : Prop where
  plain : ∀ chars, .plain chars ∈ Piece.ofText text → brace ∉ chars
  inserted : ∀ reference ∈ targets text, ∀ value, lookup (path reference) = some value →
    brace ∉ value.embedded.toList

theorem IsFreeOf.not_leaves {brace : Char} (hbrace : brace = '\x7b' ∨ brace = '\x7d')
    (hfree : IsFreeOf lookup brace text) : ¬ Leaves lookup text := by
  rintro ⟨-, out, hout, hsome⟩
  have hmem : brace ∈ out := by simpa using mem_of_targets_ne_nil hbrace hsome
  rcases hout.joined.mem_or hmem with ⟨chars, hchars, hin⟩ | ⟨reference, hreference, hinserted⟩
  · exact hfree.plain chars hchars hin
  · obtain ⟨value, hvalue, hin⟩ := hinserted
    exact hfree.inserted reference hreference value hvalue hin

end Reference

/-! ## One value -/

namespace Value

open Reference

/-- The text gives the value that it becomes a part of a reference: one that comes about in
it, or one in the value of the token of which it is an alias. -/
def Contributes (lookup : TokenPath → Option Value) (text : String) : Prop :=
  Leaves lookup text ∨ ∃ reference value, IsAlias text reference ∧
    lookup (path reference) = some value ∧ value.references ≠ []

variable {lookup : TokenPath → Option Value}

theorem references_eq_nil_of_text_iff {text : String} {value : Value}
    (hreplaced : (Value.text text).Replaced lookup value) :
    value.references = [] ↔ ¬ Contributes lookup text := by
  rcases hreplaced with ⟨reference, halias, hvalue⟩ | ⟨hnone, out, hout, rfl⟩
  · constructor
    · rintro hplain (⟨hnone, -⟩ | ⟨other, found, hother, hfound, hsome⟩)
      · exact hnone reference halias
      · rw [halias.unique hother, hfound] at hvalue
        exact hsome (Option.some.inj hvalue ▸ hplain)
    · intro hnot
      by_contra hsome
      exact hnot (.inr ⟨reference, value, halias, hvalue, hsome⟩)
  · constructor
    · rintro hplain (⟨-, other, hother, hsome⟩ | ⟨reference, -, halias, -⟩)
      · exact hsome (hout.unique hother ▸ hplain)
      · exact hnone reference halias
    · intro hnot
      by_contra hsome
      exact hnot (.inl ⟨hnone, out, hout, hsome⟩)

mutual

/-- A resolved value has no references exactly if no text of the authored value gives it one. -/
theorem references_eq_nil_iff (authored : Value) {value : Value}
    (hreplaced : authored.Replaced lookup value) :
    value.references = [] ↔ ∀ text ∈ authored.texts, ¬ Contributes lookup text := by
  cases authored with
  | text s =>
      rw [references_eq_nil_of_text_iff hreplaced, texts, List.forall_mem_singleton]
  | list items =>
      obtain ⟨values, rfl, hitems⟩ := hreplaced
      exact itemReferences_eq_nil_iff items hitems
  | object entries =>
      obtain ⟨values, rfl, hentries⟩ := hreplaced
      exact entryReferences_eq_nil_iff entries hentries
  | _ =>
      rw [hreplaced]
      exact iff_of_true rfl (List.forall_mem_nil _)
termination_by structural authored

theorem itemReferences_eq_nil_iff (items : List Value) {values : List Value}
    (hreplaced : ItemsReplaced lookup items values) :
    itemReferences values = [] ↔ ∀ text ∈ textsOfItems items, ¬ Contributes lookup text := by
  cases items with
  | nil =>
      rw [hreplaced]
      exact iff_of_true rfl (List.forall_mem_nil _)
  | cons item rest =>
      obtain ⟨first, others, rfl, hfirst, hothers⟩ := hreplaced
      rw [itemReferences, textsOfItems, List.append_eq_nil_iff, List.forall_mem_append,
        references_eq_nil_iff item hfirst, itemReferences_eq_nil_iff rest hothers]
termination_by structural items

theorem entryReferences_eq_nil_iff (entries : List (String × Value)) {values : Object}
    (hreplaced : EntriesReplaced lookup entries values) :
    entryReferences values = [] ↔ ∀ text ∈ textsOfEntries entries, ¬ Contributes lookup text := by
  cases entries with
  | nil =>
      rw [hreplaced]
      exact iff_of_true rfl (List.forall_mem_nil _)
  | cons entry rest =>
      obtain ⟨first, others, rfl, hfirst, hothers⟩ := hreplaced
      rw [entryReferences, textsOfEntries, List.append_eq_nil_iff, List.forall_mem_append,
        references_eq_nil_iff entry.2 hfirst, entryReferences_eq_nil_iff rest hothers]
termination_by structural entries

end

end Value

/-! ## Loaded values -/

namespace Loading

variable {dictionary : Dictionary}

/-- Tokens that are settled one after the other have what each of them has if the tokens to
which it refers have it. -/
theorem forall_of_settled {tokens : List Authored} {motive : Token → Prop}
    (hauthored : ∀ authored ∈ tokens, ∀ token ∈ dictionary.tokens,
      token.path = authored.path → token.original = authored.value)
    (hstep : ∀ token ∈ dictionary.tokens, (∀ target ∈ dictionary.tokens,
      ∀ reference ∈ token.original.references, target.path = Reference.path reference →
        motive target) → motive token)
    {known : Resolution.Known} (hknown : Resolution.Settled tokens known) :
    ∀ token ∈ dictionary.tokens, token.path ∈ Entries.keys known → motive token := by
  induction hknown with
  | nil =>
      intro token _ hpath
      cases hpath
  | @snoc known authored value _ hmem hnew hvalue ih =>
      intro token htoken hpath
      rw [← Entries.insert_of_get?_eq_none hnew, Entries.mem_keys_insert] at hpath
      rcases hpath with hpath | hold
      · -- What the last token refers to is known before it.
        apply hstep token htoken
        intro target htarget reference hreference hsame
        apply ih target htarget
        rw [hauthored authored hmem token htoken hpath] at hreference
        rw [hsame]
        exact Resolution.mem_keys_of_replaced hvalue hreference
      · exact ih token htoken hold

/-- In a loaded dictionary a token has what it has if the tokens to which it refers have it. -/
theorem IsLoaded.forall_of_references (hloaded : IsLoaded dictionary) {motive : Token → Prop}
    (hstep : ∀ token ∈ dictionary.tokens, (∀ target ∈ dictionary.tokens,
      ∀ reference ∈ token.original.references, target.path = Reference.path reference →
        motive target) → motive token) :
    ∀ token ∈ dictionary.tokens, motive token := by
  obtain ⟨tokens, lead, hout, -⟩ := hloaded.exists_resolve
  obtain ⟨known, hknown, hpairs⟩ := Resolution.settled_of_resolve hout
  have hauthored : ∀ authored ∈ Resolution.distinct tokens, ∀ token ∈ dictionary.tokens,
      token.path = authored.path → token.original = authored.value := by
    intro authored hmem token htoken hpath
    obtain ⟨other, hother, hcarries, -⟩ := Paired.exists_of_mem_right hpairs htoken
    have hsame := List.inj_on_of_nodup_map (Resolution.nodup_map_path_distinct tokens) hother hmem
      (hcarries.path.symm.trans hpath)
    rw [hcarries.original, hsame]
  intro token htoken
  obtain ⟨authored, -, hcarries, hvalue⟩ := Paired.exists_of_mem_right hpairs htoken
  apply forall_of_settled hauthored hstep hknown token htoken
  rw [hcarries.path]
  exact (Entries.isSome_get?_iff _ _).1 (by simp [hvalue])

end Loading

namespace Dictionary

variable {dictionary : Dictionary}

/-- A text in the authored value of the first token is an alias of the second. -/
def Aliases (dictionary : Dictionary) (token target : Token) : Prop :=
  target ∈ dictionary.tokens ∧ ∃ text ∈ token.original.texts, ∃ reference,
    Reference.IsAlias text reference ∧ target.path = Reference.path reference

/-- A text in the authored value of the token leaves a reference in what becomes of it. -/
def Leaves (dictionary : Dictionary) (token : Token) : Prop :=
  ∃ text ∈ token.original.texts, Reference.Leaves (Resolution.valueAt? dictionary.tokens) text

theorem valueAt?_eq_some_iff {path : TokenPath} {value : Value} :
    Resolution.valueAt? dictionary.tokens path = some value ↔
      ∃ target ∈ dictionary.tokens, target.path = path ∧ target.value = value := by
  constructor
  · intro hvalue
    obtain ⟨target, htarget, rfl⟩ := Option.map_eq_some_iff.1 hvalue
    have hpath := List.find?_some htarget
    exact ⟨target, List.mem_of_find?_eq_some htarget, by simpa using hpath, rfl⟩
  · rintro ⟨target, htarget, rfl, rfl⟩
    exact Resolution.valueAt?_of_mem dictionary.nodup_paths htarget

theorem Aliases.mem_references {token target : Token} (haliases : dictionary.Aliases token target) :
    ∃ reference ∈ token.original.references, target.path = Reference.path reference := by
  obtain ⟨-, text, htext, reference, halias, hpath⟩ := haliases
  refine ⟨reference, ?_, hpath⟩
  rw [Value.references_eq_flatMap_texts, List.mem_flatMap]
  refine ⟨text, htext, ?_⟩
  rw [Reference.targets_of_alias? (Reference.alias?_eq_some_iff.2 halias)]
  exact List.mem_singleton_self reference

/-- The references of a token's value come about in its own texts or are handed on by aliases. -/
theorem exists_contributes_iff {token : Token} :
    (∃ text ∈ token.original.texts,
        Value.Contributes (Resolution.valueAt? dictionary.tokens) text) ↔
      dictionary.Leaves token ∨
        ∃ target, dictionary.Aliases token target ∧ target.value.references ≠ [] := by
  constructor
  · rintro ⟨text, htext, hleaves | ⟨reference, value, halias, hvalue, hsome⟩⟩
    · exact .inl ⟨text, htext, hleaves⟩
    · obtain ⟨target, htarget, hpath, rfl⟩ := valueAt?_eq_some_iff.1 hvalue
      exact .inr ⟨target, ⟨htarget, text, htext, reference, halias, hpath⟩, hsome⟩
  · rintro (⟨text, htext, hleaves⟩ | ⟨target, haliases, hsome⟩)
    · exact ⟨text, htext, .inl hleaves⟩
    · obtain ⟨htarget, text, htext, reference, halias, hpath⟩ := haliases
      have hvalue := valueAt?_eq_some_iff.2 ⟨target, htarget, hpath, rfl⟩
      exact ⟨text, htext, .inr ⟨reference, target.value, halias, hvalue, hsome⟩⟩

end Dictionary

namespace Loading

open Relation (ReflTransGen)

variable {dictionary : Dictionary}

theorem IsLoaded.references_value_ne_nil_iff (hloaded : IsLoaded dictionary) :
    ∀ token ∈ dictionary.tokens, token.value.references ≠ [] ↔
      ∃ origin, ReflTransGen dictionary.Aliases token origin ∧ dictionary.Leaves origin := by
  refine hloaded.forall_of_references ?_
  intro token htoken ih
  have hstep : token.value.references ≠ [] ↔ dictionary.Leaves token ∨
      ∃ target, dictionary.Aliases token target ∧ target.value.references ≠ [] := by
    rw [← Dictionary.exists_contributes_iff, ne_eq,
      Value.references_eq_nil_iff token.original (hloaded.replaced htoken).2]
    push Not
    rfl
  have htarget : ∀ target, dictionary.Aliases token target → (target.value.references ≠ [] ↔
      ∃ origin, ReflTransGen dictionary.Aliases target origin ∧ dictionary.Leaves origin) := by
    intro target haliases
    obtain ⟨reference, hreference, hpath⟩ := haliases.mem_references
    exact ih target haliases.1 reference hreference hpath
  rw [hstep]
  constructor
  · rintro (hleaves | ⟨target, haliases, hsome⟩)
    · exact ⟨token, .refl, hleaves⟩
    · obtain ⟨origin, hreach, hleaves⟩ := (htarget target haliases).1 hsome
      exact ⟨origin, .head haliases hreach, hleaves⟩
  · rintro ⟨origin, hreach, hleaves⟩
    rcases ReflTransGen.cases_head hreach with rfl | ⟨target, haliases, hrest⟩
    · exact .inl hleaves
    · exact .inr ⟨target, haliases, (htarget target haliases).2 ⟨origin, hrest, hleaves⟩⟩

/-- A resolved value has a reference exactly if aliases lead from its token to a text that leaves
one. There is none if each longer text with references is free of one of the braces, outside its
references and in what is put in their places. -/
theorem usesReferences_of_isLoaded (hloaded : IsLoaded dictionary) {token : Token}
    (htoken : token ∈ dictionary.tokens) :
    (token.value.usesReferences = true ↔ ∃ origin,
      ReflTransGen dictionary.Aliases token origin ∧ dictionary.Leaves origin) ∧
    ((∀ origin, ReflTransGen dictionary.Aliases token origin →
      ∀ text ∈ origin.original.texts, Reference.alias? text = none → Reference.targets text ≠ [] →
        ∃ brace, (brace = '\x7b' ∨ brace = '\x7d') ∧
          Reference.IsFreeOf (Resolution.valueAt? dictionary.tokens) brace text) →
      token.value.usesReferences = false) := by
  have hiff := hloaded.references_value_ne_nil_iff token htoken
  constructor
  · rw [← hiff]
    simp [Value.usesReferences]
  · intro hfree
    rw [Value.usesReferences_eq_false_iff]
    by_contra hsome
    obtain ⟨origin, hreach, text, htext, hleaves⟩ := hiff.1 hsome
    have hnone := Reference.alias?_eq_none_iff.2 hleaves.1
    obtain ⟨brace, hbrace, hclean⟩ := hfree origin hreach text htext hnone hleaves.targets_ne_nil
    exact hclean.not_leaves hbrace hleaves

/-- A reference in doubled braces, and a list with an alias of it. -/
def doubled : Object :=
  [("a", .object [("$value", .text "b")]),
    ("b", .object [("$value", .int 1)]),
    ("x", .object [("$value", .text "\x7b\x7ba\x7d\x7d")]),
    ("y", .object [("$value", .list [.text "\x7bx\x7d"])])]

def doubledAlias : Token :=
  ⟨["y"], "y", none, .list [.text "\x7bb\x7d"], .list [.text "\x7bx\x7d"], none, none, [], none⟩

def doubledTokens : Dictionary where
  tokens := [⟨["a"], "a", none, .text "b", .text "b", none, none, [], none⟩,
    ⟨["b"], "b", none, .int 1, .int 1, none, none, [], none⟩,
    ⟨["x"], "x", none, .text "\x7bb\x7d", .text "\x7b\x7ba\x7d\x7d", none, none, [], none⟩,
    doubledAlias]
  nodup_paths := by decide

def doubledAuthored : List Authored :=
  [⟨["a"], .null, .text "b", [], .null, none⟩,
    ⟨["b"], .null, .int 1, [], .null, none⟩,
    ⟨["x"], .null, .text "\x7b\x7ba\x7d\x7d", [], .null, none⟩,
    ⟨["y"], .null, doubledAlias.original, [], .null, none⟩]

theorem isLoaded_doubled : IsLoaded doubledTokens := by
  have hunique : (Value.object doubled).UniqueKeys := by
    simp [doubled, Value.UniqueKeys, Value.EntriesUnique, Value.ItemsUnique, Entries.keys]
  have hauthored : tokensOf (Tree.Keys.of true) doubled = .ok doubledAuthored := rfl
  have hresolved : Resolution.resolve doubledAuthored none = .ok doubledTokens.tokens := by cbv
  exact .of_resolve hunique hauthored hresolved

theorem usesReferences_of_isLoaded_doubled :
    IsLoaded doubledTokens ∧ doubledAlias ∈ doubledTokens.tokens ∧
      ∃ origin, ReflTransGen doubledTokens.Aliases doubledAlias origin ∧
        doubledTokens.Leaves origin := by
  have hmem : doubledAlias ∈ doubledTokens.tokens := by simp [doubledTokens]
  exact ⟨isLoaded_doubled, hmem, (usesReferences_of_isLoaded isLoaded_doubled hmem).1.1 rfl⟩

/-- A tree loads with a reference in a resolved value. -/
theorem not_resolved_doubled : ¬ ∀ (dictionary : Dictionary) (token : Token),
    IsLoaded dictionary → token ∈ dictionary.tokens → token.value.usesReferences = false := by
  intro hall
  have hmem : doubledAlias ∈ doubledTokens.tokens := by simp [doubledTokens]
  exact absurd (hall doubledTokens doubledAlias isLoaded_doubled hmem) (by decide)

end Loading

end DesignTokens
