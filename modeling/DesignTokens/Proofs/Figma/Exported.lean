import DesignTokens.Figma.TextStyles
import DesignTokens.Proofs.Figma.Nested
import DesignTokens.Proofs.Resolution.Members
import DesignTokens.Proofs.Tree.Overlaid

/-!
# The tree of exported tokens

The tokens of a loaded dictionary come in the order of a tree, and so do those of them that
are exported. None lies in the way of another, so that placing them never fails, and each
stands at its path as the leaf that was made of it.
-/

namespace DesignTokens

namespace Loading

open DesignTokens.Tree

variable {keys : Keys} {dictionary : Dictionary}

theorem sublist_map_path_of_tokensOf (hkeys : keys.Apart) {tree : Object}
    (hunique : (Value.object tree).UniqueKeys) {tokens : List Authored}
    (htokens : tokensOf keys tree = .ok tokens) :
    (tokens.map Authored.path).Sublist ((leaves keys tree).map Leaf.path) := by
  rw [map_path_of_tokensOf hkeys hunique htokens, contents]
  split
  · rw [List.map_map]
    exact List.Sublist.refl _
  · rw [List.map_map]
    exact List.filter_sublist.map _

/-- Tokens that lie in a tree in their order are resolved in that order. -/
theorem sublist_map_path_of_resolve {tree : Object} (hunique : (Value.object tree).UniqueKeys)
    {tokens : List Authored} {lead : Option String} {out : List Token}
    (hpaths : (tokens.map Authored.path).Sublist ((leaves keys tree).map Leaf.path))
    (hout : Resolution.resolve tokens lead = .ok out) :
    (out.map Token.path).Sublist ((leaves keys tree).map Leaf.path) := by
  have hnodup := (Figma.nodup_map_path_leaves hunique).sublist hpaths
  rwa [Resolution.map_path_of_resolve hout, Resolution.distinct_eq_self hnodup]

/-- The tokens of a loaded dictionary lie in one tree, in their order. -/
theorem IsLoaded.exists_leaves (hloaded : IsLoaded dictionary) :
    ∃ keys tree, (Value.object tree).UniqueKeys ∧
      (dictionary.tokens.map Token.path).Sublist ((leaves keys tree).map Leaf.path) := by
  cases hloaded with
  | @tree tree dtcg lead hunique hloaded =>
      obtain ⟨tokens, htokens, hout⟩ := dictionaryOfTree_eq_ok_iff.1 hloaded
      have hpaths := sublist_map_path_of_tokensOf (Keys.apart_of dtcg) hunique htokens
      exact ⟨_, tree, hunique, sublist_map_path_of_resolve hunique hpaths hout⟩
  | @files files paths dtcg lead hloaded =>
      obtain ⟨tokens, htokens, hrest⟩ := Traced.bind_eq_ok.1 hloaded
      obtain ⟨out, hresolved, hend⟩ := Traced.bind_eq_ok.1 hrest
      have hout : Resolution.resolve tokens lead = .ok out := hresolved
      rw [(ofTokens_eq_iff hout).1 (Except.ok.inj hend)] at hout
      obtain ⟨loaded, merged, hreads, hmerged, rfl⟩ := exists_loaded_of_readTokens htokens
      have hpaths := sublist_map_path_of_tokensOf (Keys.apart_of dtcg) hreads.unique hmerged
      refine ⟨Keys.of dtcg, loaded.tree, hreads.unique, ?_⟩
      apply sublist_map_path_of_resolve hreads.unique _ hout
      rw [List.map_map]
      exact hpaths

end Loading

namespace Figma

open DesignTokens.Tree DesignTokens.Value

variable {keys other : Keys} {placed : List Placed} {tree : Object}

namespace Nests

/-- Some of the tokens of a tree form a tree themselves, under any keys. -/
theorem exists_of_sublist (hnests : Nests keys placed tree) {part : List Placed}
    (hpart : (part.map Placed.path).Sublist (placed.map Placed.path)) :
    ∃ smaller, Nests other part smaller ∧ Entries.keys smaller ⊆ Entries.keys tree := by
  induction hnests generalizing part with
  | nil =>
      rw [List.map_nil, List.sublist_nil, List.map_eq_nil_iff] at hpart
      subst hpart
      exact ⟨[], .nil, List.Subset.refl _⟩
  | @leaf name token rest tree hpath hnew _ ih =>
      rw [List.map_cons, List.sublist_cons_iff] at hpart
      rcases hpart with hlater | ⟨paths, hpaths, hlater⟩
      · obtain ⟨smaller, hsmaller, hkeys⟩ := ih hlater
        exact ⟨smaller, hsmaller, List.subset_cons_of_subset name hkeys⟩
      · obtain ⟨first, others, rfl, hfirst, rfl⟩ := List.map_eq_cons_iff.1 hpaths
        obtain ⟨smaller, hsmaller, hkeys⟩ := ih hlater
        exact ⟨_, .leaf (hfirst.trans hpath) (fun hmem => hnew (hkeys hmem)) hsmaller,
          List.cons_subset_cons name hkeys⟩
  | @group name inner rest group tree _ _ hnew _ ihInner ih =>
      rw [List.map_append, List.sublist_append_iff] at hpart
      obtain ⟨first, second, hpaths, hfirst, hsecond⟩ := hpart
      obtain ⟨here, later, rfl, rfl, rfl⟩ := List.map_eq_append_iff.1 hpaths
      have hunder : (here.map Placed.path).Sublist
          ((inner.map Placed.path).map (List.cons name)) := by
        rw [List.map_map] at hfirst ⊢
        exact hfirst
      obtain ⟨below, hbelow, hhere⟩ := List.sublist_map_iff.1 hunder
      obtain ⟨kept, rfl, rfl⟩ := exists_eq_map_under hhere
      obtain ⟨smaller, hsmaller, hkeys⟩ := ih hsecond
      -- A group of which no token is left is not made.
      by_cases hne : kept = []
      · subst hne
        exact ⟨smaller, hsmaller, List.subset_cons_of_subset name hkeys⟩
      · obtain ⟨group, hgroup, -⟩ := ihInner hbelow
        exact ⟨_, .group hgroup hne (fun hmem => hnew (hkeys hmem)) hsmaller,
          List.cons_subset_cons name hkeys⟩

theorem at?_of_mem (hnests : Nests keys placed tree) {token : Placed} (hmem : token ∈ placed) :
    (Value.object tree).at? token.path = some (token.leaf keys) := by
  have hskip : ∀ {name : String} {value : Value} {rest : List Placed} {tree : Object},
      Nests keys rest tree → name ∉ Entries.keys tree → ∀ token ∈ rest,
        (Value.object ((name, value) :: tree)).at? token.path =
          (Value.object tree).at? token.path := by
    intro name value rest tree hrest hnew token hmem
    obtain ⟨other, hother, steps, hsteps⟩ := hrest.exists_cons token hmem
    have hne : ¬ (name == other) = true := by
      rw [beq_iff_eq]
      rintro rfl
      exact hnew hother
    rw [hsteps, at?_object_cons, at?_object_cons, Entries.get?_cons, if_neg hne]
  induction hnests generalizing token with
  | nil => cases hmem
  | @leaf name first rest tree hpath hnew hrest ih =>
      rcases List.mem_cons.1 hmem with rfl | hlater
      · rw [hpath, at?_object_cons, Entries.get?_cons, if_pos (beq_self_eq_true name)]
        rfl
      · rw [hskip hrest hnew token hlater, ih hlater]
  | @group name inner rest group tree _ _ hnew hrest ihInner ih =>
      rcases List.mem_append.1 hmem with hhere | hlater
      · obtain ⟨below, hbelow, rfl⟩ := List.mem_map.1 hhere
        have hgroup := ihInner hbelow
        rw [Placed.under, at?_object_cons, Entries.get?_cons, if_pos (beq_self_eq_true name)]
        exact hgroup
      · rw [hskip hrest hnew token hlater, ih hlater]

/-- What stands at the top of the tree is a leaf or a group with tokens. -/
theorem exists_of_get? (hnests : Nests keys placed tree) {name : String} {value : Value}
    (hvalue : Entries.get? tree name = some value) :
    (∃ token ∈ placed, token.path = [name] ∧ value = token.leaf keys) ∨
      ∃ inner group, value = .object group ∧ Nests keys inner group ∧
        ∀ token ∈ inner, token.under name ∈ placed := by
  induction hnests with
  | nil => cases hvalue
  | @leaf first token rest tree hpath _ _ ih =>
      rw [Entries.get?_cons] at hvalue
      split at hvalue
      · next hname =>
          rw [← beq_iff_eq.1 hname, ← Option.some.inj hvalue]
          exact .inl ⟨token, List.mem_cons_self, hpath, rfl⟩
      · rcases ih hvalue with ⟨other, hother, hfound⟩ | ⟨inner, group, hsame, hinner, hall⟩
        · exact .inl ⟨other, List.mem_cons_of_mem _ hother, hfound⟩
        · exact .inr ⟨inner, group, hsame, hinner,
            fun token htoken => List.mem_cons_of_mem _ (hall token htoken)⟩
  | @group first inner rest group tree hinner _ _ _ _ ih =>
      rw [Entries.get?_cons] at hvalue
      split at hvalue
      · next hname =>
          rw [← beq_iff_eq.1 hname, ← Option.some.inj hvalue]
          exact .inr ⟨inner, group, rfl, hinner,
            fun token htoken => List.mem_append_left _ (List.mem_map_of_mem htoken)⟩
      · rcases ih hvalue with ⟨other, hother, hfound⟩ | ⟨below, found, hsame, hbelow, hall⟩
        · exact .inl ⟨other, List.mem_append_right _ hother, hfound⟩
        · exact .inr ⟨below, found, hsame, hbelow,
            fun token htoken => List.mem_append_right _ (hall token htoken)⟩

theorem uniqueKeys (hnests : Nests keys placed tree)
    (hleaves : ∀ token ∈ placed, (token.leaf keys).UniqueKeys) :
    (Value.object tree).UniqueKeys := by
  have hcons : ∀ {name : String} {value : Value} {tree : Object}, name ∉ Entries.keys tree →
      value.UniqueKeys → (Value.object tree).UniqueKeys →
        (Value.object ((name, value) :: tree)).UniqueKeys := by
    intro name value tree hnew hvalue htree
    obtain ⟨hnodup, hvalues⟩ := uniqueKeys_object_iff.1 htree
    exact uniqueKeys_object_iff.2
      ⟨List.nodup_cons.2 ⟨hnew, hnodup⟩, List.forall_mem_cons.2 ⟨hvalue, hvalues⟩⟩
  induction hnests with
  | nil => exact uniqueKeys_object_iff.2 (by simp [Entries.keys])
  | leaf _ hnew _ ih =>
      rw [List.forall_mem_cons] at hleaves
      exact hcons hnew hleaves.1 (ih hleaves.2)
  | group _ _ hnew _ ihInner ih =>
      rw [List.forall_mem_append, List.forall_mem_map] at hleaves
      exact hcons hnew (ihInner hleaves.1) (ih hleaves.2)

end Nests

/-! ## Exported tokens -/

variable {dictionary : Dictionary} {token : Token} {node : Value} {type : Option String}
  {value : Value}

/-- A leaf has a type and a value. -/
theorem leaf_eq (hkeys : keys.Apart) (type : Option String) (value : Value) :
    leaf keys type value = .object [(keys.type, type.elim .null .text), (keys.value, value)] := by
  have hother : ¬ (keys.type == keys.value) = true := by simpa using hkeys.type_ne_value
  cases type <;> simp [leaf, Entries.ofList, Entries.update, Entries.insert, hother]

theorem member?_leaf_value (hkeys : keys.Apart) (type : Option String) (value : Value) :
    (leaf keys type value).member? keys.value = some value := by
  have hother : ¬ (keys.type == keys.value) = true := by simpa using hkeys.type_ne_value
  simp [leaf_eq hkeys, Value.member?, Value.object?, Entries.get?_cons, hother]

theorem exists_leaf_of_entry? (hentry : entry? keys dictionary token = some node) :
    ∃ type value, node = leaf keys type value := by
  unfold entry? at hentry
  dsimp only at hentry
  repeat' split at hentry
  all_goals cases hentry
  all_goals exact ⟨_, _, rfl⟩

/-- The exported tokens as they are placed. -/
def exported (keys : Keys) (dictionary : Dictionary) (tokens : List Token) : List Placed :=
  tokens.filterMap fun token => entry? keys dictionary token |>.map fun node =>
    ⟨token.path, (node.member? keys.type).bind Value.text?, (node.member? keys.value).getD .null⟩

theorem placedLeaf_eq (hkeys : keys.Apart) (hentry : entry? keys dictionary token = some node) :
    Placed.leaf keys ⟨token.path, (node.member? keys.type).bind Value.text?,
      (node.member? keys.value).getD .null⟩ = node := by
  obtain ⟨type, value, rfl⟩ := exists_leaf_of_entry? hentry
  have htype : (leaf keys type value).member? keys.type = some (type.elim .null .text) := by
    simp [leaf_eq hkeys, Value.member?, Value.object?, Entries.get?_cons]
  rw [Placed.leaf, htype, member?_leaf_value hkeys]
  cases type <;> rfl

theorem exists_of_mem_exported (hkeys : keys.Apart) {tokens : List Token} {found : Placed}
    (hmem : found ∈ exported keys dictionary tokens) : ∃ token ∈ tokens,
      token.path = found.path ∧ entry? keys dictionary token = some (found.leaf keys) := by
  obtain ⟨token, htoken, hfound⟩ := List.mem_filterMap.1 hmem
  obtain ⟨node, hentry, rfl⟩ := Option.map_eq_some_iff.1 hfound
  exact ⟨token, htoken, rfl, by rw [placedLeaf_eq hkeys hentry, hentry]⟩

theorem exists_mem_exported (hkeys : keys.Apart) {tokens : List Token} (htoken : token ∈ tokens)
    (hentry : entry? keys dictionary token = some node) :
    ∃ found ∈ exported keys dictionary tokens, found.path = token.path ∧ found.leaf keys = node :=
  ⟨_, List.mem_filterMap.2 ⟨token, htoken, Option.map_eq_some_iff.2 ⟨node, hentry, rfl⟩⟩, rfl,
    placedLeaf_eq hkeys hentry⟩

theorem entries_eq_placeAll (hkeys : keys.Apart) (tokens : List Token) :
    entries keys dictionary tokens = placeAll keys (exported keys dictionary tokens) [] := by
  rw [entries, placeAll, exported, List.foldlM_filterMap]
  congr 1
  funext tree token
  cases hentry : entry? keys dictionary token with
  | none => rfl
  | some node =>
      dsimp only [Option.map_some]
      rw [placedLeaf_eq hkeys hentry]

theorem sublist_map_path_exported (keys : Keys) (dictionary : Dictionary) (tokens : List Token) :
    ((exported keys dictionary tokens).map Placed.path).Sublist (tokens.map Token.path) := by
  induction tokens with
  | nil => exact List.Sublist.refl _
  | cons token rest ih =>
      rw [exported, List.filterMap_cons]
      cases entry? keys dictionary token with
      | none => exact ih.cons token.path
      | some node => exact ih.cons_cons token.path

/-- The exported tokens of a loaded dictionary are placed one beside the other. -/
theorem exists_entries (hloaded : Loading.IsLoaded dictionary) (hkeys : keys.Apart) :
    ∃ placed, entries keys dictionary dictionary.tokens = .ok placed ∧
      Nests keys (exported keys dictionary dictionary.tokens) placed := by
  obtain ⟨source, tree, hunique, hpaths⟩ := hloaded.exists_leaves
  have hall : ((leaves source tree).map fun leaf => (⟨leaf.path, none, .null⟩ : Placed)).map
      Placed.path = (leaves source tree).map Leaf.path := by
    rw [List.map_map]
    rfl
  obtain ⟨whole, hwhole, -⟩ :=
    exists_nests tree hunique.nodup (fun _ hmem => hunique.of_mem hmem) hall
  have hpart := (sublist_map_path_exported keys dictionary dictionary.tokens).trans hpaths
  rw [← hall] at hpart
  obtain ⟨placed, hnests, -⟩ : ∃ placed, Nests keys (exported keys dictionary dictionary.tokens)
      placed ∧ _ := hwhole.exists_of_sublist hpart
  refine ⟨placed, ?_, hnests⟩
  rw [entries_eq_placeAll hkeys]
  exact hnests.placeAll_eq (by simp [Entries.keys])

theorem nests_of_entries (hloaded : Loading.IsLoaded dictionary) (hkeys : keys.Apart)
    {placed : Object} (hplaced : entries keys dictionary dictionary.tokens = .ok placed) :
    Nests keys (exported keys dictionary dictionary.tokens) placed := by
  obtain ⟨tree, htree, hnests⟩ := exists_entries hloaded hkeys
  obtain rfl : tree = placed := Except.ok.inj (htree.symm.trans hplaced)
  exact hnests

/-! ## Their values -/

theorem uniqueKeys_leaf (hvalue : value.UniqueKeys) : (leaf keys type value).UniqueKeys := by
  have hempty : (Value.object []).UniqueKeys :=
    uniqueKeys_object_iff.2 ⟨List.nodup_nil, List.forall_mem_nil _⟩
  apply hempty.update
  rw [List.forall_mem_cons, List.forall_mem_singleton]
  cases type <;> exact ⟨trivial, hvalue⟩

theorem uniqueKeys_outputValue (hloaded : Loading.IsLoaded dictionary)
    (htoken : token ∈ dictionary.tokens) : (outputValue token).UniqueKeys := by
  rw [outputValue]
  split
  · exact (hloaded.replaced htoken).1
  · exact hloaded.uniqueKeys_value htoken

theorem uniqueKeys_literal (hloaded : Loading.IsLoaded dictionary) (hvalue : value.UniqueKeys) :
    (literal dictionary value).UniqueKeys := by
  rw [literal]
  split
  · split
    · next hfound => exact hloaded.uniqueKeys_value (Dictionary.get?_eq_some_iff.1 hfound).1
    · exact hvalue
  · exact hvalue

theorem uniqueKeys_firstFamily (hvalue : value.UniqueKeys) : (firstFamily value).UniqueKeys := by
  rw [firstFamily.eq_def]
  split
  · trivial
  · exact uniqueKeys_list_iff.1 hvalue _ List.mem_cons_self
  · exact hvalue

theorem uniqueKeys_weightName (hvalue : value.UniqueKeys) : (weightName value).UniqueKeys := by
  rw [weightName.eq_def]
  split
  · trivial
  · split
    · exact hvalue
    · trivial

theorem uniqueKeys_decoration (hvalue : value.UniqueKeys) : (decoration value).UniqueKeys := by
  cases value with
  | text => trivial
  | _ => exact hvalue

theorem uniqueKeys_renameCase (hloaded : Loading.IsLoaded dictionary) {parts : Object}
    (hparts : (Value.object parts).UniqueKeys) :
    (Value.object (renameCase dictionary parts)).UniqueKeys := by
  rw [renameCase]
  split
  · next hvalue =>
      apply (hparts.sublist List.filter_sublist).insert
      exact uniqueKeys_literal hloaded (hparts.of_get? hvalue)
  · exact hparts

theorem uniqueKeys_renameDecoration (hloaded : Loading.IsLoaded dictionary) {parts : Object}
    (hparts : (Value.object parts).UniqueKeys) :
    (Value.object (renameDecoration dictionary parts)).UniqueKeys := by
  rw [renameDecoration]
  split
  · next hvalue =>
      apply hparts.insert
      exact uniqueKeys_decoration (uniqueKeys_literal hloaded (hparts.of_get? hvalue))
  · exact hparts

theorem uniqueKeys_compatible (hloaded : Loading.IsLoaded dictionary) {parts : Object}
    (hparts : (Value.object parts).UniqueKeys) :
    (Value.object (compatible dictionary parts)).UniqueKeys :=
  uniqueKeys_renameDecoration hloaded
    (uniqueKeys_renameCase hloaded (hparts.sublist List.filter_sublist))

theorem uniqueKeys_variantValue (hloaded : Loading.IsLoaded dictionary)
    (htoken : token ∈ dictionary.tokens) : (variantValue dictionary token).UniqueKeys := by
  have hown := uniqueKeys_outputValue hloaded htoken
  rw [variantValue]
  split
  · next parts heq =>
      rw [heq] at hown
      split
      · exact hown
      · split
        · next inherited hfound =>
            obtain ⟨default, hdefault, hsame⟩ := Option.map_eq_some_iff.1 hfound
            have hbase := uniqueKeys_outputValue hloaded (Dictionary.get?_eq_some_iff.1 hdefault).1
            rw [hsame] at hbase
            exact hbase.update fun entry hmem => hown.of_mem hmem
        · exact hown
  · exact hown

/-- No object in an exported leaf names a key twice. -/
theorem uniqueKeys_of_entry? (hloaded : Loading.IsLoaded dictionary)
    (htoken : token ∈ dictionary.tokens) (hentry : entry? keys dictionary token = some node) :
    node.UniqueKeys := by
  have hown := uniqueKeys_outputValue hloaded htoken
  unfold entry? at hentry
  dsimp only at hentry
  split at hentry
  · cases hentry
  split at hentry
  · cases hentry
  split at hentry
  · rw [← Option.some.inj hentry]
    exact uniqueKeys_leaf (uniqueKeys_firstFamily hown)
  split at hentry
  · rw [← Option.some.inj hentry]
    apply uniqueKeys_leaf
    split
    · exact uniqueKeys_weightName hown
    · exact hown
  split at hentry
  · have hvariant := uniqueKeys_variantValue hloaded htoken
    split at hentry
    · next parts heq =>
        rw [heq] at hvariant
        split at hentry
        · cases hentry
        · rw [← Option.some.inj hentry]
          exact uniqueKeys_leaf (uniqueKeys_compatible hloaded hvariant)
    · rw [← Option.some.inj hentry]
      exact uniqueKeys_leaf hvariant
  · rw [← Option.some.inj hentry]
    exact uniqueKeys_leaf (uniqueKeys_decoration hown)

theorem uniqueKeys_of_nests_exported (hloaded : Loading.IsLoaded dictionary) (hkeys : keys.Apart)
    (hnests : Nests keys (exported keys dictionary dictionary.tokens) tree) :
    (Value.object tree).UniqueKeys := by
  apply hnests.uniqueKeys
  intro found hfound
  obtain ⟨token, htoken, -, hentry⟩ := exists_of_mem_exported hkeys hfound
  exact uniqueKeys_of_entry? hloaded htoken hentry

end Figma

end DesignTokens
