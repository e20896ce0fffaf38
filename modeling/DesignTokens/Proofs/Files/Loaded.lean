import DesignTokens.Proofs.Files.Sources
import DesignTokens.Proofs.Resolution.FixedPoint
import DesignTokens.Proofs.Tree.Overlaid

/-!
# Loaded dictionaries

A dictionary is loaded from one token tree or from a list of token files. Either way its
tokens are resolved tokens as they stand, and no object in their authored values names a
key twice.
-/

namespace DesignTokens

/-- Tokens with a path each are kept as they stand. -/
theorem Dictionary.tokens_ofTokens {tokens : List Token}
    (hnodup : (tokens.map Token.path).Nodup) : (ofTokens tokens).tokens = tokens := by
  have hkeys : (Entries.keys (tokens.map fun token => (token.path, token))).Nodup := by
    rwa [Entries.keys, List.map_map]
  change Entries.values (keyed tokens) = tokens
  rw [keyed, Entries.ofList_eq_self hkeys, Entries.values, List.map_map]
  exact List.map_id tokens

theorem Dictionary.ofTokens_tokens (dictionary : Dictionary) :
    ofTokens dictionary.tokens = dictionary := by
  have htokens := tokens_ofTokens dictionary.nodup_paths
  cases dictionary
  cases hsame : ofTokens _
  simpa [hsame] using htokens

/-- The token at a path is the one that has the path. -/
theorem Dictionary.get?_eq_some_iff {dictionary : Dictionary} {path : TokenPath} {token : Token} :
    dictionary.get? path = some token ↔ token ∈ dictionary.tokens ∧ token.path = path := by
  constructor
  · intro hfound
    exact ⟨List.mem_of_find?_eq_some hfound, by simpa using List.find?_some hfound⟩
  · rintro ⟨htoken, rfl⟩
    cases hfound : dictionary.get? token.path with
    | none => exact absurd (List.find?_eq_none.1 hfound token htoken) (by simp)
    | some other =>
        have hpath : other.path = token.path := by simpa using List.find?_some hfound
        rw [List.inj_on_of_nodup_map dictionary.nodup_paths (List.mem_of_find?_eq_some hfound)
          htoken hpath]

namespace Tree

variable {keys : Keys}

/-- The entries of a leaf name no key twice if nothing in the tree does. -/
theorem uniqueKeys_of_mem_leaves {tree : Object} (hunique : (Value.object tree).UniqueKeys)
    {leaf : Leaf} (hleaf : leaf ∈ leaves keys tree) : (Value.object leaf.entries).UniqueKeys := by
  obtain ⟨step, steps, member, -, hmember, hfound, -⟩ := exists_of_mem_leaves tree hunique hleaf
  exact (hunique.of_get? hmember).at? hfound

/-- The path and the value of a content are those of a leaf. -/
theorem exists_leaf_of_mem_contents (hkeys : keys.Apart) {tree : Object}
    {content : TokenPath × Object} (hmem : content ∈ contents keys tree) :
    ∃ leaf ∈ leaves keys tree, content.1 = leaf.path ∧
      Entries.get? content.2 keys.value = Entries.get? leaf.entries keys.value := by
  rw [contents] at hmem
  split at hmem
  · obtain ⟨leaf, hleaf, rfl⟩ := List.mem_map.1 hmem
    exact ⟨leaf, hleaf, rfl, rfl⟩
  · obtain ⟨leaf, hleaf, rfl⟩ := List.mem_map.1 hmem
    exact ⟨leaf, List.mem_of_mem_filter hleaf, rfl, get?_settle hkeys _ _ _⟩

end Tree

namespace Loading

open DesignTokens.Tree

variable {keys : Keys}

theorem value_of_authoredAt {base : TokenPath} {content : TokenPath × Object}
    {token : Authored} (htoken : authoredAt keys base content = .ok token) :
    token.value = (Entries.get? content.2 keys.value).getD .null := by
  obtain ⟨extensions, -, hrest⟩ := Failing.bind_eq_ok.1 htoken
  cases hrest
  rfl

/-- A token of a tree alone has no source. -/
theorem source_of_tokensOf {tree : Object} {tokens : List Authored}
    (htokens : tokensOf keys tree = .ok tokens) : ∀ token ∈ tokens, token.source = none := by
  intro token htoken
  rw [tokensOf, authored_eq_mapM, Failing.mapM_eq_ok] at htokens
  obtain ⟨leaf, -, hread⟩ := Paired.exists_of_mem_right htokens htoken
  obtain ⟨extensions, -, hrest⟩ := Failing.bind_eq_ok.1 hread
  cases hrest
  rfl

/-- No object in the value of a token names a key twice if nothing in the tree does. -/
theorem uniqueKeys_of_tokensOf (hkeys : keys.Apart) {tree : Object}
    (hunique : (Value.object tree).UniqueKeys) {tokens : List Authored}
    (htokens : tokensOf keys tree = .ok tokens) : ∀ token ∈ tokens, token.value.UniqueKeys := by
  intro token htoken
  rw [tokensOf, authored_delegate hkeys hunique, Failing.mapM_eq_ok] at htokens
  obtain ⟨content, hcontent, hread⟩ := Paired.exists_of_mem_right htokens htoken
  obtain ⟨leaf, hleaf, -, hsame⟩ := exists_leaf_of_mem_contents hkeys hcontent
  have hentries := uniqueKeys_of_mem_leaves hunique hleaf
  rw [value_of_authoredAt hread, hsame]
  cases hvalue : Entries.get? leaf.entries keys.value with
  | none => trivial
  | some value => exact hentries.of_get? hvalue

theorem uniqueKeys_of_readTokens {files : FileTree} {paths : List Path} {dtcg : Bool}
    {tokens : List Authored} (htokens : (readTokens files paths dtcg).result = .ok tokens) :
    ∀ token ∈ tokens, token.value.UniqueKeys := by
  intro token htoken
  obtain ⟨loaded, merged, hreads, hmerged, rfl⟩ := exists_loaded_of_readTokens htokens
  obtain ⟨found, hfound, rfl⟩ := List.mem_map.1 htoken
  exact uniqueKeys_of_tokensOf (Keys.apart_of dtcg) hreads.unique hmerged found hfound

/-- The dictionary of a token tree in which no object names a key twice, or of a list of
token files. -/
inductive IsLoaded (dictionary : Dictionary) : Prop
  | tree {tree : Object} {dtcg : Bool} {lead : Option String}
      (hunique : (Value.object tree).UniqueKeys)
      (hloaded : dictionaryOfTree tree dtcg lead = .ok dictionary)
  | files {files : FileTree} {paths : List Path} {dtcg : Bool} {lead : Option String}
      (hloaded : (dictionaryOfFiles files paths dtcg lead).result = .ok dictionary)

variable {dictionary : Dictionary}

theorem ofTokens_eq_iff {tokens : List Authored} {lead : Option String} {out : List Token}
    (hout : Resolution.resolve tokens lead = .ok out) :
    Dictionary.ofTokens out = dictionary ↔ out = dictionary.tokens := by
  have htokens := Dictionary.tokens_ofTokens (Resolution.nodup_map_path_of_resolve hout)
  constructor
  · rintro rfl
    exact htokens.symm
  · rintro rfl
    exact dictionary.ofTokens_tokens

/-- A tree loads as the resolved tokens of the tree. -/
theorem dictionaryOfTree_eq_ok_iff {tree : Object} {dtcg : Bool} {lead : Option String} :
    dictionaryOfTree tree dtcg lead = .ok dictionary ↔ ∃ tokens,
      tokensOf (Keys.of dtcg) tree = .ok tokens ∧
        Resolution.resolve tokens lead = .ok dictionary.tokens := by
  rw [dictionaryOfTree, Failing.bind_eq_ok]
  apply exists_congr
  intro tokens
  apply and_congr_right
  intro _
  rw [Failing.bind_eq_ok]
  constructor
  · rintro ⟨out, hout, hend⟩
    rwa [← (ofTokens_eq_iff hout).1 (Except.ok.inj hend)]
  · intro hout
    exact ⟨_, hout, congrArg Except.ok ((ofTokens_eq_iff hout).2 rfl)⟩

theorem IsLoaded.of_resolve {tree : Object} {dtcg : Bool} {lead : Option String}
    {tokens : List Authored} (hunique : (Value.object tree).UniqueKeys)
    (htokens : tokensOf (Keys.of dtcg) tree = .ok tokens)
    (hresolved : Resolution.resolve tokens lead = .ok dictionary.tokens) : IsLoaded dictionary :=
  .tree hunique (dictionaryOfTree_eq_ok_iff.2 ⟨tokens, htokens, hresolved⟩)

/-- The tokens of a loaded dictionary are resolved from tokens in whose values no object
names a key twice. -/
theorem IsLoaded.exists_resolve (hloaded : IsLoaded dictionary) :
    ∃ tokens lead, Resolution.resolve tokens lead = .ok dictionary.tokens ∧
      ∀ token ∈ tokens, token.value.UniqueKeys := by
  cases hloaded with
  | @tree tree dtcg lead hunique hloaded =>
      obtain ⟨tokens, htokens, hout⟩ := dictionaryOfTree_eq_ok_iff.1 hloaded
      have hvalues := uniqueKeys_of_tokensOf (Keys.apart_of dtcg) hunique htokens
      exact ⟨tokens, lead, hout, hvalues⟩
  | @files files paths dtcg lead hloaded =>
      obtain ⟨tokens, htokens, hrest⟩ := Traced.bind_eq_ok.1 hloaded
      obtain ⟨out, hresolved, hend⟩ := Traced.bind_eq_ok.1 hrest
      have hout : Resolution.resolve tokens lead = .ok out := hresolved
      refine ⟨tokens, lead, ?_, uniqueKeys_of_readTokens htokens⟩
      rwa [← (ofTokens_eq_iff hout).1 (Except.ok.inj hend)]

/-- The values of a loaded dictionary solve the equations of their references. -/
theorem IsLoaded.replaced (hloaded : IsLoaded dictionary) {token : Token}
    (htoken : token ∈ dictionary.tokens) :
    token.original.UniqueKeys ∧
      token.original.Replaced (Resolution.valueAt? dictionary.tokens) token.value := by
  obtain ⟨tokens, lead, hout, hunique⟩ := hloaded.exists_resolve
  obtain ⟨⟨authored, hlast, hcarries⟩, hreplaced⟩ := Resolution.resolved_of_mem hout htoken
  obtain ⟨before, after, rfl, -⟩ := hlast
  refine ⟨?_, hreplaced⟩
  rw [hcarries.original]
  exact hunique authored (by simp)

end Loading

end DesignTokens
