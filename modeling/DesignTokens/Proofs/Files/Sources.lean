import Mathlib
import DesignTokens.Files.Loading
import DesignTokens.Proofs.Json.Reader
import DesignTokens.Proofs.Paired
import DesignTokens.Proofs.Tree.Merged

/-!
# Where tokens come from

The source of a token is looked up among the tokens that every file has when it is taken
alone. A token of the merged tree is found there, and the last such file is its source,
with one exception: a root with a value key keeps a group that is named like the extensions
key, and a file whose own root has no such key loses that group when it is taken alone.
-/

namespace DesignTokens.Loading

open DesignTokens.Tree

variable {files : FileTree} {keys : Keys} {paths : List Path} {path : TokenPath}

/-- The tree of the file, taken alone, has a token at the path. -/
def DefinesAlone (files : FileTree) (keys : Keys) (file : Path) (path : TokenPath) : Prop :=
  ∃ tree tokens, readTree files file = .ok tree ∧ tokensOf keys tree = .ok tokens ∧
    path ∈ tokens.map Authored.path

/-- The last file of the list that has a token at the path when it is taken alone. -/
def IsLastWith (files : FileTree) (keys : Keys) (paths : List Path) (path : TokenPath)
    (source : String) : Prop :=
  ∃ before file after, paths = before ++ file :: after ∧ file.shown = source ∧
    DefinesAlone files keys file path ∧ ∀ later ∈ after, ¬ DefinesAlone files keys later path

/-! ## The tokens of one tree -/

theorem path_of_authoredAt {base : TokenPath} {content : TokenPath × Object} {token : Authored}
    (htoken : authoredAt keys base content = .ok token) : token.path = base ++ content.1 := by
  obtain ⟨extensions, -, hrest⟩ := Failing.bind_eq_ok.1 htoken
  cases hrest
  rfl

theorem map_path_of_tokensOf (hkeys : keys.Apart) {tree : Object}
    (hunique : (Value.object tree).UniqueKeys) {tokens : List Authored}
    (htokens : tokensOf keys tree = .ok tokens) :
    tokens.map Authored.path = (contents keys tree).map Prod.fst := by
  rw [tokensOf, authored_delegate hkeys hunique, Failing.mapM_eq_ok] at htokens
  apply Paired.map_eq_map htokens
  intro content token htoken
  simpa using path_of_authoredAt htoken

/-- Handing properties down loses the tokens below groups that are named like the
extensions key, unless the root itself has a value key. -/
theorem mem_map_fst_contents_iff {tree : Object} :
    path ∈ (contents keys tree).map Prod.fst ↔
      HasLeaf keys tree path ∧
        (Entries.contains tree keys.value = true ∨ keys.extensions ∉ path) := by
  rw [contents]
  cases Entries.contains tree keys.value with
  | true =>
      rw [if_pos rfl, List.map_map, HasLeaf]
      simp [Function.comp_def, Leaf.content]
  | false =>
      rw [if_neg Bool.false_ne_true, List.map_map, HasLeaf]
      simp only [Function.comp_def, Leaf.settled, List.mem_map, List.mem_filter, Leaf.isKept,
        decide_eq_true_eq, Bool.false_eq_true, false_or]
      constructor
      · rintro ⟨leaf, ⟨hmem, hkept⟩, rfl⟩
        exact ⟨⟨leaf, hmem, rfl⟩, hkept⟩
      · rintro ⟨⟨leaf, hmem, rfl⟩, hkept⟩
        exact ⟨leaf, ⟨hmem, hkept⟩, rfl⟩

theorem mem_paths_of_tokensOf_iff (hkeys : keys.Apart) {tree : Object}
    (hunique : (Value.object tree).UniqueKeys) {tokens : List Authored}
    (htokens : tokensOf keys tree = .ok tokens) :
    path ∈ tokens.map Authored.path ↔ HasLeaf keys tree path ∧
      (Entries.contains tree keys.value = true ∨ keys.extensions ∉ path) := by
  rw [map_path_of_tokensOf hkeys hunique htokens, mem_map_fst_contents_iff]

theorem uniqueKeys_of_readTree {file : Path} {tree : Object}
    (htree : readTree files file = .ok tree) : (Value.object tree).UniqueKeys := by
  obtain ⟨text, -, hrest⟩ := Failing.bind_eq_ok.1 htree
  dsimp only at hrest
  split at hrest
  · next hread =>
      cases hrest
      exact Json.uniqueKeys_of_read hread
  all_goals cases hrest

/-! ## The run over the files -/

/-- What has been read from the files `paths`, in terms of the files. -/
structure Reads (files : FileTree) (keys : Keys) (paths : List Path) (loaded : Loaded) :
    Prop where
  each : ∀ file ∈ paths, ∃ tree tokens, readTree files file = .ok tree ∧
    tokensOf keys tree = .ok tokens
  trees : ∃ trees, List.Forall₂ (fun file tree => readTree files file = .ok tree) paths trees ∧
    loaded.tree = mergeAll trees
  unique : (Value.object loaded.tree).UniqueKeys
  hasLeaf : ∀ path, HasLeaf keys loaded.tree path →
    ∃ file ∈ paths, ∃ tree, readTree files file = .ok tree ∧ HasLeaf keys tree path
  sources : ∀ path source, Entries.get? loaded.sources path = some source ↔
    IsLastWith files keys paths path source

theorem Reads.nil : Reads files keys [] ⟨[], []⟩ where
  each := by simp
  trees := ⟨[], .nil, rfl⟩
  unique := Value.uniqueKeys_object_iff.2 (by simp [Entries.keys])
  hasLeaf := by simp [HasLeaf, leaves]
  sources := by simp [IsLastWith]

theorem isLastWith_append_singleton {file : Path} {source : String} :
    IsLastWith files keys (paths ++ [file]) path source ↔
      (DefinesAlone files keys file path ∧ file.shown = source) ∨
        (¬ DefinesAlone files keys file path ∧ IsLastWith files keys paths path source) := by
  constructor
  · rintro ⟨before, found, after, hpaths, hsource, hdefines, hlater⟩
    rcases List.eq_nil_or_concat after with rfl | ⟨between, last, rfl⟩
    · obtain ⟨rfl, rfl⟩ : paths = before ∧ file = found := by simpa using hpaths
      exact .inl ⟨hdefines, hsource⟩
    · have hsplit : paths ++ [file] = (before ++ found :: between) ++ [last] := by
        simpa using hpaths
      obtain ⟨rfl, hlast⟩ := List.append_inj' hsplit rfl
      obtain rfl : file = last := by simpa using hlast
      refine .inr ⟨hlater file (by simp), before, found, between, rfl, hsource, hdefines, ?_⟩
      exact fun later hmem => hlater later (by simp [hmem])
  · rintro (⟨hdefines, hsource⟩ | ⟨hnot, before, found, after, rfl, hsource, hdefines, hlater⟩)
    · exact ⟨paths, file, [], rfl, hsource, hdefines, by simp⟩
    · refine ⟨before, found, after ++ [file], by simp, hsource, hdefines, ?_⟩
      intro later hmem
      rcases List.mem_append.1 hmem with hold | hnew
      · exact hlater later hold
      · rwa [List.mem_singleton.1 hnew]

/-- The sources after the tokens of one more file. -/
theorem get?_foldl_insert_eq (tokens : List Authored) (file : String)
    (sources : List (TokenPath × String)) (path : TokenPath) :
    Entries.get? (tokens.foldl (fun sources token => Entries.insert sources token.path file)
        sources) path =
      if path ∈ tokens.map Authored.path then some file else Entries.get? sources path := by
  induction tokens generalizing sources with
  | nil => simp
  | cons token rest ih =>
      rw [List.foldl_cons, ih, Entries.get?_insert, List.map_cons]
      by_cases hrest : path ∈ rest.map Authored.path
      · simp [hrest]
      · by_cases hfirst : token.path = path
        · simp [hfirst]
        · simp [hrest, hfirst, Ne.symm hfirst]

/-- Reading one more file. -/
theorem Reads.snoc {loaded later : Loaded} {file : Path} (hreads : Reads files keys paths loaded)
    (hlater : (addFile files keys loaded file).result = .ok later) :
    Reads files keys (paths ++ [file]) later := by
  obtain ⟨tree, htree, hrest⟩ := Traced.bind_eq_ok.1 hlater
  obtain ⟨added, hadded, hend⟩ := Traced.bind_eq_ok.1 hrest
  cases hend
  obtain ⟨tokens, htokens, hdone⟩ := Failing.bind_eq_ok.1 hadded
  cases hdone
  have hunique := uniqueKeys_of_readTree htree
  have hdefines : ∀ path, DefinesAlone files keys file path ↔ path ∈ tokens.map Authored.path := by
    intro path
    constructor
    · rintro ⟨other, found, hother, hfound, hmem⟩
      obtain rfl : tree = other := Except.ok.inj (htree.symm.trans hother)
      rwa [Except.ok.inj (htokens.symm.trans hfound)]
    · exact fun hmem => ⟨tree, tokens, htree, htokens, hmem⟩
  constructor
  · intro other hmem
    rcases List.mem_append.1 hmem with hold | hnew
    · exact hreads.each other hold
    · rw [List.mem_singleton.1 hnew]
      exact ⟨tree, tokens, htree, htokens⟩
  · obtain ⟨trees, htrees, hmerged⟩ := hreads.trees
    refine ⟨trees ++ [tree], List.rel_append htrees (.cons htree .nil), ?_⟩
    rw [mergeAll_append_singleton, ← hmerged]
  · exact uniqueKeys_merge tree hreads.unique hunique
  · intro path hleaf
    rcases hasLeaf_of_merge tree hleaf with hold | hnew
    · obtain ⟨other, hmem, found⟩ := hreads.hasLeaf path hold
      exact ⟨other, List.mem_append_left _ hmem, found⟩
    · exact ⟨file, by simp, tree, htree, hnew⟩
  · intro path source
    rw [isLastWith_append_singleton, get?_foldl_insert_eq, hdefines path,
      ← hreads.sources path source]
    split <;> simp_all

/-- Reading all files of a list. -/
theorem reads_of_foldlM {loaded : Loaded}
    (hloaded : (paths.foldlM (addFile files keys) ⟨[], []⟩).result = .ok loaded) :
    Reads files keys paths loaded := by
  induction paths using List.reverseRecOn generalizing loaded with
  | nil =>
      cases hloaded
      exact .nil
  | append_singleton paths file ih =>
      rw [List.foldlM_append] at hloaded
      obtain ⟨before, hbefore, hlast⟩ := Traced.bind_eq_ok.1 hloaded
      obtain ⟨later, hlater, hend⟩ := Traced.bind_eq_ok.1 hlast
      cases hend
      exact (ih hbefore).snoc hlater

/-! ## The source of a token -/

theorem exists_isLastWith_iff :
    (∃ source, IsLastWith files keys paths path source) ↔
      ∃ file ∈ paths, DefinesAlone files keys file path := by
  constructor
  · rintro ⟨source, before, file, after, rfl, -, hdefines, -⟩
    exact ⟨file, by simp, hdefines⟩
  · induction paths using List.reverseRecOn with
    | nil => simp
    | append_singleton paths last ih =>
        rintro ⟨file, hmem, hdefines⟩
        by_cases hlast : DefinesAlone files keys last path
        · exact ⟨last.shown, isLastWith_append_singleton.2 (.inl ⟨hlast, rfl⟩)⟩
        · have hold : file ∈ paths := by
            rcases List.mem_append.1 hmem with hold | hnew
            · exact hold
            · rw [List.mem_singleton.1 hnew] at hdefines
              exact absurd hdefines hlast
          obtain ⟨source, hsource⟩ := ih ⟨file, hold, hdefines⟩
          exact ⟨source, isLastWith_append_singleton.2 (.inr ⟨hlast, hsource⟩)⟩

/-- Taken alone, a file loses the tokens below groups that are named like the extensions
key, unless its root has a value key. -/
theorem Reads.definesAlone_iff {loaded : Loaded} (hreads : Reads files keys paths loaded)
    (hkeys : keys.Apart) {file : Path} (hfile : file ∈ paths) :
    DefinesAlone files keys file path ↔ ∃ tree, readTree files file = .ok tree ∧
      HasLeaf keys tree path ∧
        (Entries.contains tree keys.value = true ∨ keys.extensions ∉ path) := by
  constructor
  · rintro ⟨tree, tokens, htree, htokens, hmem⟩
    have hunique := uniqueKeys_of_readTree htree
    exact ⟨tree, htree, (mem_paths_of_tokensOf_iff hkeys hunique htokens).1 hmem⟩
  · rintro ⟨tree, htree, hleaf⟩
    obtain ⟨other, tokens, hother, htokens⟩ := hreads.each file hfile
    obtain rfl : tree = other := Except.ok.inj (htree.symm.trans hother)
    have hunique := uniqueKeys_of_readTree htree
    exact ⟨tree, tokens, htree, htokens, (mem_paths_of_tokensOf_iff hkeys hunique htokens).2 hleaf⟩

/-- Of the files that have a token of the merged tree, none has it when taken alone exactly if
each of them loses the group in which it lies. -/
theorem Reads.forall_not_definesAlone_iff {loaded : Loaded} (hreads : Reads files keys paths loaded)
    (hkeys : keys.Apart) (hleaf : HasLeaf keys loaded.tree path) :
    (∀ file ∈ paths, ¬ DefinesAlone files keys file path) ↔ keys.extensions ∈ path ∧
      ∀ file ∈ paths, ∀ tree, readTree files file = .ok tree → HasLeaf keys tree path →
        Entries.contains tree keys.value = false := by
  constructor
  · intro hlost
    have hkept : ∀ file ∈ paths, ∀ tree, readTree files file = .ok tree →
        HasLeaf keys tree path →
          ¬ (Entries.contains tree keys.value = true ∨ keys.extensions ∉ path) := by
      intro file hfile tree htree hthere hkept
      apply hlost file hfile
      exact (hreads.definesAlone_iff hkeys hfile).2 ⟨tree, htree, hthere, hkept⟩
    obtain ⟨file, hfile, tree, htree, hthere⟩ := hreads.hasLeaf path hleaf
    refine ⟨not_not.1 (not_or.1 (hkept file hfile tree htree hthere)).2, ?_⟩
    intro file hfile tree htree hthere
    exact Bool.eq_false_iff.2 (not_or.1 (hkept file hfile tree htree hthere)).1
  · rintro ⟨hpath, hroots⟩ file hfile hdefines
    obtain ⟨tree, htree, hthere, hkept⟩ := (hreads.definesAlone_iff hkeys hfile).1 hdefines
    rcases hkept with hroot | hapart
    · rw [hroots file hfile tree htree hthere] at hroot
      cases hroot
    · exact hapart hpath

theorem not_mem_extensions_of_hasLeaf {tree : Object} (hleaf : HasLeaf .dtcg tree path) :
    Keys.dtcg.extensions ∉ path := by
  intro hmem
  have hreserved := not_isReserved_of_hasLeaf tree hleaf _ hmem
  exact absurd hreserved (by decide)

/-- The tokens of a list of files are those of the merged tree, each with its source. -/
theorem exists_loaded_of_readTokens {dtcg : Bool} {tokens : List Authored}
    (htokens : (readTokens files paths dtcg).result = .ok tokens) :
    ∃ loaded merged, Reads files (Keys.of dtcg) paths loaded ∧
      tokensOf (Keys.of dtcg) loaded.tree = .ok merged ∧
        tokens = merged.map fun token =>
          { token with source := Entries.get? loaded.sources token.path } := by
  obtain ⟨loaded, hloaded, htaken⟩ := Traced.bind_eq_ok.1 htokens
  obtain ⟨merged, hmerged, hdone⟩ := Failing.bind_eq_ok.1 htaken
  cases hdone
  exact ⟨loaded, merged, reads_of_foldlM hloaded, hmerged, rfl⟩

/-- A token of the merged tree has the last file with a token at its path as its source. It
has none exactly if its path leads through a group that is named like the extensions key
and every file with a token there loses that group when it is taken alone, which can be
under the older keys only. -/
theorem source_of_readTokens {dtcg : Bool} {tokens : List Authored}
    (htokens : (readTokens files paths dtcg).result = .ok tokens) {token : Authored}
    (htoken : token ∈ tokens) :
    (∀ source, token.source = some source ↔
        IsLastWith files (Keys.of dtcg) paths token.path source) ∧
      (token.source = none ↔ dtcg = false ∧ Keys.legacy.extensions ∈ token.path ∧
        ∀ file ∈ paths, ∀ tree, readTree files file = .ok tree →
          HasLeaf .legacy tree token.path →
            Entries.contains tree Keys.legacy.value = false) := by
  obtain ⟨loaded, merged, hreads, hmerged, rfl⟩ := exists_loaded_of_readTokens htokens
  obtain ⟨found, hfound, rfl⟩ := List.mem_map.1 htoken
  have hkeys := Keys.apart_of dtcg
  have hleaf : HasLeaf (Keys.of dtcg) loaded.tree found.path :=
    ((mem_paths_of_tokensOf_iff hkeys hreads.unique hmerged).1 (List.mem_map_of_mem hfound)).1
  refine ⟨hreads.sources found.path, ?_⟩
  have hnone : Entries.get? loaded.sources found.path = none ↔
      ∀ file ∈ paths, ¬ DefinesAlone files (Keys.of dtcg) file found.path := by
    rw [Option.eq_none_iff_forall_ne_some]
    simp only [ne_eq, hreads.sources]
    rw [← not_exists, exists_isLastWith_iff]
    simp
  refine hnone.trans ((hreads.forall_not_definesAlone_iff hkeys hleaf).trans ?_)
  cases dtcg with
  | true =>
      have hapart := not_mem_extensions_of_hasLeaf hleaf
      exact ⟨fun hlost => absurd hlost.1 hapart, fun hlost => absurd hlost.1 (by decide)⟩
  | false => exact ⟨fun hlost => ⟨rfl, hlost⟩, fun hlost => hlost.2⟩

/-- Two files under the older keys. The value at the root of the second one keeps the group
`extensions` of the first in the merged tree, and the first alone has lost it. -/
def shadowing : FileTree where
  entries :=
    [(["a.json"], .text ("\x7b\"extensions\": \x7b\"b\": \x7b\"value\": \"x\"\x7d\x7d, " ++
        "\"c\": \x7b\"value\": \"y\"\x7d\x7d")),
      (["b.json"], .text "\x7b\"value\": \"\", \"c\": \x7b\"value\": \"z\"\x7d\x7d")]

def shadowingPaths : List Path := [⟨"", ["a.json"]⟩, ⟨"", ["b.json"]⟩]

def shadowingTokens : List Authored :=
  [⟨["extensions", "b"], .null, .text "x", [], .null, none⟩,
    ⟨["c"], .null, .text "z", [], .null, some "b.json"⟩]

theorem readTokens_shadowing :
    (readTokens shadowing shadowingPaths false).result = .ok shadowingTokens := by
  cbv

theorem source_of_readTokens_shadowing :
    (readTokens shadowing shadowingPaths false).result = .ok shadowingTokens ∧
      ∀ token ∈ shadowingTokens,
        (∀ source, token.source = some source ↔
            IsLastWith shadowing (Keys.of false) shadowingPaths token.path source) ∧
          (token.source = none ↔ false = false ∧ Keys.legacy.extensions ∈ token.path ∧
            ∀ file ∈ shadowingPaths, ∀ tree, readTree shadowing file = .ok tree →
              HasLeaf .legacy tree token.path →
                Entries.contains tree Keys.legacy.value = false) :=
  ⟨readTokens_shadowing, fun _ htoken => source_of_readTokens readTokens_shadowing htoken⟩

/-- A token of the merged tree can be without a source. -/
theorem not_source_shadowing :
    ¬ ∀ (files : FileTree) (paths : List Path) (dtcg : Bool) (tokens : List Authored),
      (readTokens files paths dtcg).result = .ok tokens → ∀ token ∈ tokens,
        ∃ source, token.source = some source ∧
          IsLastWith files (Keys.of dtcg) paths token.path source := by
  intro hsourced
  have hfound := hsourced shadowing shadowingPaths false _ readTokens_shadowing
  obtain ⟨source, hsource, -⟩ := hfound ⟨["extensions", "b"], .null, .text "x", [], .null, none⟩
    (List.mem_cons_self ..)
  cases hsource

end DesignTokens.Loading
