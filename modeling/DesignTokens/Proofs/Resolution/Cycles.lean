import Mathlib.Logic.Relation
import DesignTokens.Proofs.Reference.Dotted
import DesignTokens.Proofs.Resolution.FixedPoint

/-!
# When tokens resolve

Tokens resolve exactly when every reference names one of them and none leads back to
where it stands. The search finds its values in an order in which every token comes
after those it refers to, so there is no cycle among tokens that resolve; and each way
in which it can fail exhibits what is wrong with the tokens.
-/

namespace DesignTokens.Resolution

/-- Tokens as they are promised to a resolution: their paths tell them apart, also when
written with dots, and type and description are text if they are there. -/
structure WellFormed (tokens : List Authored) : Prop where
  nodup : (tokens.map Authored.path).Nodup
  nonempty : ∀ token ∈ tokens, token.path ≠ []
  dotless : ∀ token ∈ tokens, ∀ name ∈ token.path, '.' ∉ name.toList
  type : ∀ token ∈ tokens, ∃ text : Option String, token.type = text.elim .null .text
  description : ∀ token ∈ tokens, ∃ text : Option String,
    token.description = text.elim .null .text

/-- Every reference names a token, none leads back to where it stands, and all extensions
have text keys. -/
structure Resolvable (tokens : List Authored) : Prop where
  defined : ∀ token ∈ tokens, ∀ reference ∈ token.value.references,
    ∃ target ∈ tokens, target.path = Reference.path reference
  acyclic : ∀ path, ¬ Relation.TransGen (RefersTo tokens) path path
  textKeys : ∀ token ∈ tokens, token.HasTextKeys

/-- An error that tells what is wrong with the tokens. -/
inductive Refusal (tokens : List Authored) : Error → Prop
  /-- A token has a reference and no token lies at the path it names. -/
  | missing {owner : Authored} {reference : String} (howner : owner ∈ tokens)
      (hmem : reference ∈ owner.value.references)
      (habsent : ∀ token ∈ tokens, token.path ≠ Reference.path reference) :
      Refusal tokens (Resolution.missing owner reference)
  /-- Each path refers to the next, and the last one is among those before it. -/
  | cycle {chain : List TokenPath} {last : TokenPath}
      (hchain : (chain ++ [last]).IsChain (RefersTo tokens)) (hmem : last ∈ chain) :
      Refusal tokens (.problem (.cycle ((chain ++ [last]).map TokenPath.dotted)) none)
  /-- The extensions of a token have a key that is no text. -/
  | report {owner : Authored} {found : Schema.Report} (howner : owner ∈ tokens)
      (hkeys : ¬ owner.HasTextKeys) : Refusal tokens (.report found)

variable {tokens : List Authored} {known : Known} {lead : Option String}

/-! ## Values are found in an order without cycles -/

theorem mem_keys_of_replaced {authored value : Value}
    (hreplaced : authored.Replaced (Entries.get? known) value) {reference : String}
    (hreference : reference ∈ authored.references) :
    Reference.path reference ∈ Entries.keys known := by
  obtain ⟨found, hfound⟩ := hreplaced.exists_of_mem authored hreference
  exact (Entries.isSome_get?_iff _ _).1 (by simp [hfound])

theorem Settled.exists_of_mem_keys (hknown : Settled tokens known) {path : TokenPath}
    (hmem : path ∈ Entries.keys known) : ∃ token ∈ tokens, token.path = path ∧
      ∃ value, token.value.Replaced (Entries.get? known) value := by
  obtain ⟨value, hvalue⟩ := Option.isSome_iff_exists.1 ((Entries.isSome_get?_iff known path).2 hmem)
  obtain ⟨token, htoken, hpath, hreplaced⟩ := hknown.replaced hvalue
  exact ⟨token, htoken, hpath, value, hreplaced⟩

theorem Settled.mem_of_refersTo (hknown : Settled tokens known)
    (hnodup : (tokens.map Authored.path).Nodup) {referrer target : TokenPath}
    (hrefers : RefersTo tokens referrer target) (hmem : referrer ∈ Entries.keys known) :
    target ∈ Entries.keys known := by
  obtain ⟨token, htoken, rfl, reference, hreference, rfl⟩ := hrefers
  obtain ⟨other, hother, hpath, value, hreplaced⟩ := hknown.exists_of_mem_keys hmem
  have hsame := List.inj_on_of_nodup_map hnodup hother htoken hpath
  subst hsame
  exact mem_keys_of_replaced hreplaced hreference

theorem Settled.mem_of_reflTransGen (hknown : Settled tokens known)
    (hnodup : (tokens.map Authored.path).Nodup) {referrer target : TokenPath}
    (hrefers : Relation.ReflTransGen (RefersTo tokens) referrer target)
    (hmem : referrer ∈ Entries.keys known) : target ∈ Entries.keys known := by
  induction hrefers with
  | refl => exact hmem
  | tail _ hstep ih => exact hknown.mem_of_refersTo hnodup hstep ih

/-- No token with a known value leads back to itself. -/
theorem Settled.acyclic (hknown : Settled tokens known)
    (hnodup : (tokens.map Authored.path).Nodup) {path : TokenPath}
    (hmem : path ∈ Entries.keys known) : ¬ Relation.TransGen (RefersTo tokens) path path := by
  induction hknown with
  | nil => simp [Entries.keys] at hmem
  | @snoc known token value hknown htoken hnew hvalue ih =>
      rw [← Entries.insert_of_get?_eq_none hnew, Entries.mem_keys_insert] at hmem
      rcases hmem with rfl | hold
      · -- The references of the last token are known before it, and lead to such only.
        intro hcycle
        obtain ⟨target, ⟨other, hother, hpath, reference, hreference, rfl⟩, hrest⟩ :=
          Relation.TransGen.head'_iff.1 hcycle
        have hsame := List.inj_on_of_nodup_map hnodup hother htoken hpath
        subst hsame
        have htarget := mem_keys_of_replaced hvalue hreference
        have hback := hknown.mem_of_reflTransGen hnodup hrest htarget
        exact Entries.get?_eq_none_iff.1 hnew hback
      · exact ih hold

/-! ## Chains of references -/

theorem path_dotted_of_mem (hwell : WellFormed tokens) {token : Authored}
    (hmem : token ∈ tokens) : Reference.path token.path.dotted = token.path :=
  Reference.path_dotted (hwell.nonempty token hmem) (hwell.dotless token hmem)

/-- What is referred to is the path that its dotted form names. -/
theorem RefersTo.path_dotted {referrer target : TokenPath}
    (hrefers : RefersTo tokens referrer target) : Reference.path target.dotted = target := by
  obtain ⟨_, _, _, reference, _, rfl⟩ := hrefers
  rw [Reference.dotted_path]

/-- Every member of a chain leads to the last one. -/
theorem transGen_of_isChain {α : Type} {R : α → α → Prop} {chain : List α} {first last : α}
    (hchain : (chain ++ [last]).IsChain R) (hmem : first ∈ chain) :
    Relation.TransGen R first last := by
  have hpairs : (chain ++ [last]).Pairwise (Relation.TransGen R) :=
    List.isChain_iff_pairwise.1 (hchain.imp fun _ _ => Relation.TransGen.single)
  exact (List.pairwise_append.1 hpairs).2.2 first hmem last (by simp)

/-! ## The outcome of a resolution -/

theorem Refusal.not_resolvable {error : Error} (hrefusal : Refusal tokens error) :
    ¬ Resolvable tokens := by
  intro hresolvable
  cases hrefusal with
  | missing howner hmem habsent =>
      obtain ⟨target, htarget, hpath⟩ := hresolvable.defined _ howner _ hmem
      exact habsent target htarget hpath
  | cycle hchain hmem => exact hresolvable.acyclic _ (transGen_of_isChain hchain hmem)
  | report howner hkeys => exact hkeys (hresolvable.textKeys _ howner)

theorem Fault.refusal (hwell : WellFormed tokens) {error : Error} (hfault : Fault tokens error) :
    Refusal tokens error := by
  cases hfault with
  | missing howner hmem habsent => exact .missing howner hmem habsent
  | @cycle open_ last hchain hmem =>
      obtain ⟨path, hpath, hdotted⟩ := List.mem_map.1 hmem
      have hleads := transGen_of_isChain hchain hpath
      obtain ⟨_, ⟨token, htoken, hsame, -⟩, -⟩ := Relation.TransGen.head'_iff.1 hleads
      obtain ⟨_, -, hrefers⟩ := Relation.TransGen.tail'_iff.1 hleads
      have hlast : path = last := by
        rw [← hrefers.path_dotted, ← hdotted, ← hsame, path_dotted_of_mem hwell htoken]
      exact .cycle hchain (hlast ▸ hpath)

theorem refusal_of_finish (hwell : WellFormed tokens) {authored : Authored}
    (hmem : authored ∈ tokens) {value : Value} {error : Error}
    (herror : finish lead authored value = .error error) : Refusal tokens error := by
  obtain ⟨found, rfl⟩ := exists_report_of_finish herror
  apply Refusal.report hmem
  intro hkeys
  obtain ⟨type, htype⟩ := hwell.type authored hmem
  obtain ⟨description, hdescription⟩ := hwell.description authored hmem
  obtain ⟨token, htoken⟩ := exists_finish_eq_ok htype hdescription hkeys lead value
  simp [herror] at htoken

theorem resolvable_of_resolve (hwell : WellFormed tokens) {out : List Token}
    (hout : resolve tokens lead = .ok out) : Resolvable tokens := by
  obtain ⟨known, hknown, hpairs⟩ := settled_of_resolve hout
  rw [distinct_eq_self hwell.nodup] at hknown hpairs
  have hmem {token : Authored} (htoken : token ∈ tokens) : token.path ∈ Entries.keys known := by
    obtain ⟨found, -, -, hvalue⟩ := Paired.exists_of_mem_left hpairs htoken
    exact (Entries.isSome_get?_iff _ _).1 (by simp [hvalue])
  constructor
  · intro token htoken reference hreference
    have hrefers : RefersTo tokens token.path (Reference.path reference) :=
      ⟨token, htoken, rfl, reference, hreference, rfl⟩
    have hkey := hknown.mem_of_refersTo hwell.nodup hrefers (hmem htoken)
    obtain ⟨target, htarget, hpath, -⟩ := hknown.exists_of_mem_keys hkey
    exact ⟨target, htarget, hpath⟩
  · intro path hcycle
    obtain ⟨_, ⟨token, htoken, rfl, -⟩, -⟩ := Relation.TransGen.head'_iff.1 hcycle
    exact hknown.acyclic hwell.nodup (hmem htoken) hcycle
  · intro token htoken entry hentry
    obtain ⟨found, -, hcarries, -⟩ := Paired.exists_of_mem_left hpairs htoken
    obtain ⟨kept, -, hname, -⟩ := Paired.exists_of_mem_left hcarries.extensions hentry
    exact ⟨kept.1, hname⟩

theorem refusal_of_resolve (hwell : WellFormed tokens) {error : Error}
    (herror : resolve tokens lead = .error error) : Refusal tokens error := by
  have hfault := fault_of_resolve herror
  rw [distinct_eq_self hwell.nodup] at hfault
  rcases hfault with hfault | ⟨authored, hmem, value, hfinish⟩
  · exact hfault.refusal hwell
  · exact refusal_of_finish hwell hmem hfinish

/-- Well formed tokens resolve exactly when they can be resolved, and every error tells
truly why they cannot. -/
theorem resolve_outcome (hwell : WellFormed tokens) :
    ((∃ out, resolve tokens lead = .ok out) ↔ Resolvable tokens) ∧
      ∀ error, resolve tokens lead = .error error → Refusal tokens error := by
  refine ⟨⟨?_, ?_⟩, fun error => refusal_of_resolve hwell⟩
  · rintro ⟨out, hout⟩
    exact resolvable_of_resolve hwell hout
  · intro hresolvable
    cases hresolve : resolve tokens lead with
    | ok out => exact ⟨out, rfl⟩
    | error error =>
        exact absurd hresolvable (refusal_of_resolve hwell hresolve).not_resolvable

/-- An alias of a text, and the same with the text an alias of the alias. -/
def linked (back : Value) : List Authored :=
  [⟨["a"], .null, .text "\x7bb\x7d", [], .null, none⟩, ⟨["b"], .text "t", back, [], .null, none⟩]

theorem wellFormed_linked (back : Value) : WellFormed (linked back) where
  nodup := by simp [linked]
  nonempty := by simp [linked]
  dotless := by simp [linked]
  type := by
    intro token hmem
    rcases List.mem_pair.1 hmem with rfl | rfl
    · exact ⟨none, rfl⟩
    · exact ⟨some "t", rfl⟩
  description := by
    intro token hmem
    rcases List.mem_pair.1 hmem with rfl | rfl <;> exact ⟨none, rfl⟩

theorem resolve_outcome_linked :
    (∀ back, WellFormed (linked back)) ∧ Resolvable (linked (.text "s")) ∧
      ¬ Resolvable (linked (.text "\x7ba\x7d")) := by
  have hopen : resolve (linked (.text "s")) none = .ok
      [⟨["a"], "a", none, .text "s", .text "\x7bb\x7d", none, none, [], none⟩,
        ⟨["b"], "b", some "t", .text "s", .text "s", none, none, [], none⟩] := rfl
  have hclosed : resolve (linked (.text "\x7ba\x7d")) none =
      .error (.problem (.cycle ["a", "b", "a"]) none) := rfl
  have hresolves := (resolve_outcome (wellFormed_linked (.text "s"))).1.1 ⟨_, hopen⟩
  refine ⟨wellFormed_linked, hresolves, ?_⟩
  intro hresolvable
  obtain ⟨out, hout⟩ := (resolve_outcome (wellFormed_linked _)).1.2 hresolvable
  exact nomatch hclosed.symm.trans hout

/-- A token whose extensions have a number as a key. -/
def numberKeyed : List Authored :=
  [⟨["a"], .null, .int 1, [(.int 1, .int 2)], .null, none⟩]

/-- References that resolve are not enough: the key of the extensions is refused. -/
theorem not_resolve_numberKeyed : WellFormed numberKeyed ∧
    (∀ token ∈ numberKeyed, ∀ reference ∈ token.value.references,
      ∃ target ∈ numberKeyed, target.path = Reference.path reference) ∧
    (∀ path, ¬ Relation.TransGen (RefersTo numberKeyed) path path) ∧
    ¬ ∃ out, resolve numberKeyed none = .ok out := by
  have hreferences : ∀ token ∈ numberKeyed, token.value.references = [] := by
    simp [numberKeyed, Value.references]
  refine ⟨⟨by simp [numberKeyed], by simp [numberKeyed], by simp [numberKeyed], ?_, ?_⟩, ?_, ?_, ?_⟩
  · exact fun token hmem => ⟨none, by simp_all [numberKeyed]⟩
  · exact fun token hmem => ⟨none, by simp_all [numberKeyed]⟩
  · intro token hmem reference hreference
    simp [hreferences token hmem] at hreference
  · intro path hcycle
    obtain ⟨_, ⟨token, hmem, -, reference, hreference, -⟩, -⟩ :=
      Relation.TransGen.head'_iff.1 hcycle
    simp [hreferences token hmem] at hreference
  · rintro ⟨out, hout⟩
    have hrefused : (resolve numberKeyed none).toOption.isNone := rfl
    simp [hout, Except.toOption] at hrefused

end DesignTokens.Resolution
