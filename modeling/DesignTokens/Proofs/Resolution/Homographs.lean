import DesignTokens.Files.Loading
import DesignTokens.Proofs.Resolution.Cycles
import DesignTokens.Proofs.Traced
import DesignTokens.Proofs.Tree.Leaves

/-!
# Cycles that are none

The search compares open tokens by their dotted forms, while a reference is looked up by its
steps. A step of a tree may hold a dot, and then another path is written in the same way: a
search that starts at such a token stops at the other one as if it had come back. Every
reported cycle is either a cycle of references or a chain between two such tokens.
-/

namespace DesignTokens

namespace Tree

open Failing

variable {keys : Keys}

theorem failsOnly_pairOf (value : Value) :
    FailsOnly (fun error => ∃ fault, error = .shape fault) (pairOf value) := by
  rintro error herror
  unfold pairOf at herror
  split at herror
  case h_3 => split at herror <;> cases herror; exact ⟨_, rfl⟩
  all_goals cases herror
  all_goals exact ⟨_, rfl⟩

theorem failsOnly_extensionsOf (value : Value) :
    FailsOnly (fun error => ∃ fault, error = .shape fault) (extensionsOf value) := by
  unfold extensionsOf
  by_cases hset : value.isSet
  · rw [if_pos hset]
    cases value with
    | object entries => exact .of_ok _
    | list items =>
        refine .foldlM (fun item _ found => (failsOnly_pairOf item).bind fun pair _ => ?_) []
        obtain ⟨key, value⟩ := pair
        dsimp only
        split
        · exact .of_ok _
        · exact .of_error ⟨.wrongKind, rfl⟩
    | text s => exact .of_error ⟨.notPairs, rfl⟩
    | _ => exact .of_error ⟨.wrongKind, rfl⟩
  · rw [if_neg hset]
    exact .of_ok []

/-- A tree cannot be read only where extensions have the wrong shape. -/
theorem failsOnly_tokensOf (keys : Keys) (tree : Object) :
    FailsOnly (fun error => ∃ fault, error = .shape fault) (Loading.tokensOf keys tree) := by
  rw [Loading.tokensOf, authored_eq_mapM]
  apply FailsOnly.mapM
  intro leaf _
  exact (failsOnly_extensionsOf _).bind fun _ _ => .of_ok _

theorem path_ne_nil_of_mem_leaves (entries : List (String × Value)) {leaf : Leaf}
    (hleaf : leaf ∈ leaves keys entries) : leaf.path ≠ [] := by
  induction entries with
  | nil => cases hleaf
  | cons entry rest ih =>
      obtain ⟨name, value⟩ := entry
      rw [leaves, List.mem_append] at hleaf
      rcases hleaf with hhere | hrest
      · split at hhere
        · cases hhere
        · obtain ⟨below, -, rfl⟩ := List.mem_map.1 hhere
          exact List.cons_ne_nil name below.path
      · exact ih hrest

/-- No token of a tree lies at its root. -/
theorem path_ne_nil_of_tokensOf {tree : Object} {tokens : List Authored}
    (htokens : Loading.tokensOf keys tree = .ok tokens) : ∀ token ∈ tokens, token.path ≠ [] := by
  intro token htoken
  rw [Loading.tokensOf, authored_eq_mapM, Failing.mapM_eq_ok] at htokens
  obtain ⟨leaf, hleaf, hread⟩ := Paired.exists_of_mem_right htokens htoken
  obtain ⟨extensions, -, hrest⟩ := Failing.bind_eq_ok.1 hread
  cases hrest
  exact path_ne_nil_of_mem_leaves _ hleaf

end Tree

namespace Resolution

variable {tokens : List Authored} {open_ : List TokenPath} {first last : TokenPath}
  {chain : List String} {context : Option Context} {lead : Option String}

/-- Two paths that are written alike with dots, the first of which has a dot in a step. -/
structure Homographs (first second : TokenPath) : Prop where
  ne : first ≠ second
  dotted : first.dotted = second.dotted
  dot : ∃ step ∈ first, '.' ∈ step.toList

/-- What two paths that are written alike have in common is what the dotted form names, unless
one of them has a dot in a step. -/
theorem homographs_of_ne (hfirst : first ≠ []) (hne : first ≠ last)
    (hdotted : first.dotted = last.dotted) (hlast : Reference.path last.dotted = last) :
    Homographs first last := by
  refine ⟨hne, hdotted, ?_⟩
  by_contra hdots
  apply hne
  rw [← hlast, ← hdotted, Reference.path_dotted hfirst]
  exact fun step hstep hdot => hdots ⟨step, hstep, hdot⟩

/-- The end of a chain is written like one of its paths: it is that path, or that path is the
start of the chain. -/
theorem mem_or_head_of_dotted (hchain : (open_ ++ [last]).IsChain (RefersTo tokens))
    (hmem : last.dotted ∈ open_.map TokenPath.dotted) :
    last ∈ open_ ∨ ∃ first rest, open_ = first :: rest ∧ first ≠ last ∧
      first.dotted = last.dotted := by
  obtain ⟨path, hpath, hdotted⟩ := List.mem_map.1 hmem
  obtain ⟨_, -, hlast⟩ := Relation.TransGen.tail'_iff.1 (transGen_of_isChain hchain hpath)
  by_cases hsame : path = last
  · exact .inl (hsame ▸ hpath)
  · obtain ⟨first, rest, rfl⟩ := List.exists_cons_of_ne_nil (List.ne_nil_of_mem hpath)
    rcases List.mem_cons.1 hpath with rfl | hrest
    · exact .inr ⟨path, rest, rfl, hsame, hdotted⟩
    · have hpairs : (first :: (rest ++ [last])).Pairwise (Relation.TransGen (RefersTo tokens)) :=
        List.isChain_iff_pairwise.1 (hchain.imp fun _ _ => Relation.TransGen.single)
      obtain ⟨_, -, hbefore⟩ := Relation.TransGen.tail'_iff.1
        ((List.pairwise_cons.1 hpairs).1 path (List.mem_append_left _ hrest))
      apply absurd _ hsame
      rw [← hbefore.path_dotted, hdotted, hlast.path_dotted]

/-- A reported cycle is a chain of references whose end is written like one of its paths. -/
theorem exists_chain_of_resolve
    (herror : resolve tokens lead = .error (.problem (.cycle chain) context)) :
    ∃ open_ last, chain = (open_ ++ [last]).map TokenPath.dotted ∧
      (open_ ++ [last]).IsChain (RefersTo (distinct tokens)) ∧
      last.dotted ∈ open_.map TokenPath.dotted := by
  rcases fault_of_resolve herror with hfault | ⟨authored, -, value, hfinish⟩
  · cases hfault with
    | cycle hchain hmem => exact ⟨_, _, rfl, hchain, hmem⟩
  · obtain ⟨found, hreport⟩ := exists_report_of_finish hfinish
    cases hreport

/-- If a tree is said to have a cycle, each path of the reported chain refers to the next, and
either the last of them leads back to itself, or the search began at a token that is written
like the last one and has a dot in a step. -/
theorem cycle_of_dictionaryOfTree {tree : Object} {dtcg : Bool}
    (herror : Loading.dictionaryOfTree tree dtcg lead =
      .error (.problem (.cycle chain) context)) :
    ∃ authored open_ last, Loading.tokensOf (Tree.Keys.of dtcg) tree = .ok authored ∧
      chain = (open_ ++ [last]).map TokenPath.dotted ∧
      (open_ ++ [last]).IsChain (RefersTo (distinct authored)) ∧
      (last ∈ open_ ∧ Relation.TransGen (RefersTo (distinct authored)) last last ∨
        ∃ first rest, open_ = first :: rest ∧ Homographs first last ∧
          Relation.TransGen (RefersTo (distinct authored)) first last) := by
  cases hauthored : Loading.tokensOf (Tree.Keys.of dtcg) tree with
  | error error =>
      obtain ⟨fault, rfl⟩ := Tree.failsOnly_tokensOf _ _ error hauthored
      rw [Loading.dictionaryOfTree, hauthored] at herror
      cases herror
  | ok authored =>
      have hresolve : resolve authored lead = .error (.problem (.cycle chain) context) := by
        rw [Loading.dictionaryOfTree, hauthored] at herror
        cases hresolve : resolve authored lead with
        | error error => simpa [hresolve, Bind.bind, Except.bind] using herror
        | ok out => simp [hresolve, Bind.bind, Except.bind, pure, Except.pure] at herror
      obtain ⟨open_, last, hchain, hrefers, hmem⟩ := exists_chain_of_resolve hresolve
      refine ⟨authored, open_, last, rfl, hchain, hrefers, ?_⟩
      rcases mem_or_head_of_dotted hrefers hmem with hback | ⟨first, rest, rfl, hne, hdotted⟩
      · exact .inl ⟨hback, transGen_of_isChain hrefers hback⟩
      · have hleads := transGen_of_isChain hrefers List.mem_cons_self
        obtain ⟨_, ⟨token, htoken, hpath, -⟩, -⟩ := Relation.TransGen.head'_iff.1 hleads
        obtain ⟨_, -, hlast⟩ := Relation.TransGen.tail'_iff.1 hleads
        have hfirst : first ≠ [] :=
          hpath ▸ Tree.path_ne_nil_of_tokensOf hauthored token (mem_of_mem_distinct htoken)
        exact .inr ⟨first, rest, rfl, homographs_of_ne hfirst hne hdotted hlast.path_dotted, hleads⟩

/-- Where no step has a dot, a cycle is reported only if there is one. -/
theorem cyclic_of_dictionaryOfTree {tree : Object} {dtcg : Bool} {authored : List Authored}
    (hauthored : Loading.tokensOf (Tree.Keys.of dtcg) tree = .ok authored)
    (hdots : ∀ token ∈ authored, ∀ step ∈ token.path, '.' ∉ step.toList)
    (herror : Loading.dictionaryOfTree tree dtcg lead =
      .error (.problem (.cycle chain) context)) :
    ∃ path, Relation.TransGen (RefersTo (distinct authored)) path path := by
  obtain ⟨others, open_, last, hothers, -, -, hends⟩ := cycle_of_dictionaryOfTree herror
  obtain rfl : authored = others := Except.ok.inj (hauthored.symm.trans hothers)
  rcases hends with ⟨-, hback⟩ | ⟨first, rest, -, halike, hleads⟩
  · exact ⟨last, hback⟩
  · obtain ⟨_, ⟨token, htoken, hpath, -⟩, -⟩ := Relation.TransGen.head'_iff.1 hleads
    obtain ⟨step, hstep, hdot⟩ := halike.dot
    exact absurd hdot (hdots token (mem_of_mem_distinct htoken) step (hpath ▸ hstep))

/-! ### A key that is written like a path -/

/-- A token under a dotted key that refers to the token at the path of the same form. -/
def dottedKey : Object :=
  [("a.b", .object [("$value", .text "\x7ba.b\x7d")]),
    ("a", .object [("b", .object [("$value", .int 1)])])]

def dottedKeyAuthored : List Authored :=
  [⟨["a.b"], .null, .text "\x7ba.b\x7d", [], .null, none⟩,
    ⟨["a", "b"], .null, .int 1, [], .null, none⟩]

theorem tokensOf_dottedKey :
    Loading.tokensOf (Tree.Keys.of true) dottedKey = .ok dottedKeyAuthored := rfl

theorem dictionaryOfTree_dottedKey : Loading.dictionaryOfTree dottedKey true none =
    .error (.problem (.cycle ["a.b", "a.b"]) none) := rfl

theorem eq_of_refersTo_dottedKey (hrefers : RefersTo (distinct dottedKeyAuthored) first last) :
    first = ["a.b"] ∧ last = ["a", "b"] := by
  obtain ⟨token, htoken, rfl, reference, hreference, rfl⟩ := hrefers
  have hreferences : (Value.text "\x7ba.b\x7d").references = ["a.b"] := rfl
  rcases List.mem_pair.1 (mem_of_mem_distinct htoken) with rfl | rfl
  · rw [hreferences] at hreference
    rw [List.mem_singleton.1 hreference]
    exact ⟨rfl, rfl⟩
  · cases hreference

theorem acyclic_dottedKey (path : TokenPath) :
    ¬ Relation.TransGen (RefersTo (distinct dottedKeyAuthored)) path path := by
  intro hcycle
  obtain ⟨_, hleaves, -⟩ := Relation.TransGen.head'_iff.1 hcycle
  obtain ⟨_, -, hreturns⟩ := Relation.TransGen.tail'_iff.1 hcycle
  have hfirst := (eq_of_refersTo_dottedKey hleaves).1
  have hlast := (eq_of_refersTo_dottedKey hreturns).2
  exact absurd (hfirst.symm.trans hlast) (by decide)

theorem cycle_of_dictionaryOfTree_dottedKey :
    Loading.dictionaryOfTree dottedKey true none =
      .error (.problem (.cycle ["a.b", "a.b"]) none) ∧
    ∃ first last, Homographs first last ∧
      Relation.TransGen (RefersTo (distinct dottedKeyAuthored)) first last := by
  obtain ⟨authored, open_, last, hauthored, -, -, hends⟩ :=
    cycle_of_dictionaryOfTree dictionaryOfTree_dottedKey
  obtain rfl : dottedKeyAuthored = authored := Except.ok.inj hauthored
  rcases hends with ⟨-, hback⟩ | ⟨first, -, -, halike, hleads⟩
  · exact absurd hback (acyclic_dottedKey last)
  · exact ⟨dictionaryOfTree_dottedKey, first, last, halike, hleads⟩

/-- A cycle is reported where no token leads back to itself. -/
theorem not_cyclic_dottedKey : ∃ tree chain authored,
    Loading.dictionaryOfTree tree true none = .error (.problem (.cycle chain) none) ∧
    Loading.tokensOf (Tree.Keys.of true) tree = .ok authored ∧
    ∀ path, ¬ Relation.TransGen (RefersTo (distinct authored)) path path :=
  ⟨dottedKey, _, _, dictionaryOfTree_dottedKey, tokensOf_dottedKey, acyclic_dottedKey⟩

end Resolution

end DesignTokens
