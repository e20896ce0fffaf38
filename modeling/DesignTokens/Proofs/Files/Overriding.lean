import DesignTokens.Proofs.Files.Loaded
import DesignTokens.Proofs.Tree.Overlaid

/-!
# Values of overridden tokens

Files are laid over one another, and so are the values that two files have for one token.
The value of a token is the one that the last file with this token has, laid over what the
earlier files hold in its place: it is the authored value itself exactly if nothing of the
earlier ones is left over.
-/

namespace DesignTokens

namespace Tree

open DesignTokens.Value

variable {keys : Keys} {path : TokenPath} {trees : List Object} {steps : List String}

/-- The last of the trees that have a token at the path, and those before it. -/
structure IsLastAt (keys : Keys) (path : TokenPath) (trees earlier : List Object)
    (last : Object) : Prop where
  hasLeaf : HasLeaf keys last path
  exists_later : ∃ later, trees = earlier ++ last :: later ∧
    ∀ tree ∈ later, ¬ HasLeaf keys tree path

/-- The authored value of the token at a path. -/
def authoredValue? (keys : Keys) (tree : Object) (path : TokenPath) : Option Value :=
  (Value.object tree).at? (path ++ [keys.value])

/-- No object in any of the trees names a key twice. -/
def AllUnique (trees : List Object) : Prop :=
  ∀ tree ∈ trees, (Value.object tree).UniqueKeys

theorem AllUnique.of_append {first second : List Object} (hunique : AllUnique (first ++ second)) :
    AllUnique first ∧ AllUnique second :=
  List.forall_mem_append.1 hunique

theorem uniqueKeys_mergeAll (hunique : AllUnique trees) :
    (Value.object (mergeAll trees)).UniqueKeys := by
  induction trees using List.reverseRecOn with
  | nil => exact uniqueKeys_object_iff.2 (by simp [mergeAll, Entries.keys])
  | append_singleton trees tree ih =>
      rw [mergeAll_append_singleton]
      exact uniqueKeys_merge tree (ih hunique.of_append.1) (hunique tree (by simp))

/-- What one more tree makes of what the merged trees hold after some steps. -/
theorem at?_mergeAll_append_singleton {tree : Object} (hunique : (Value.object tree).UniqueKeys) :
    (Value.object (mergeAll (trees ++ [tree]))).at? steps =
      match (Value.object tree).at? steps with
      | some found => some (overlay ((Value.object (mergeAll trees)).at? steps) found)
      | none =>
        if (Value.object tree).stops steps then none
        else (Value.object (mergeAll trees)).at? steps := by
  rw [mergeAll_append_singleton, ← overlay_object, at?_overlay hunique]
  rfl

/-- What merged trees hold after some steps is what the last tree that holds anything there
has, laid over what those before it hold. -/
theorem exists_last_of_at?_mergeAll (hunique : AllUnique trees) {value : Value}
    (hvalue : (Value.object (mergeAll trees)).at? steps = some value) (hsteps : steps ≠ []) :
    ∃ earlier last later found, trees = earlier ++ last :: later ∧
      (Value.object last).at? steps = some found ∧
        value = overlay ((Value.object (mergeAll earlier)).at? steps) found ∧
          ∀ tree ∈ later, (Value.object tree).at? steps = none ∧
            (Value.object tree).stops steps = false := by
  induction trees using List.reverseRecOn with
  | nil =>
      cases steps with
      | nil => exact absurd rfl hsteps
      | cons step rest => cases hvalue
  | append_singleton trees tree ih =>
      rw [at?_mergeAll_append_singleton (hunique tree (by simp))] at hvalue
      cases hfound : (Value.object tree).at? steps with
      | some found =>
          rw [hfound] at hvalue
          exact ⟨trees, tree, [], found, rfl, hfound, (Option.some.inj hvalue).symm, by simp⟩
      | none =>
          rw [hfound] at hvalue
          cases hstops : (Value.object tree).stops steps with
          | true => simp [hstops] at hvalue
          | false =>
              rw [hstops, if_neg Bool.false_ne_true] at hvalue
              obtain ⟨earlier, last, later, found, rfl, hlast, hsame, hlater⟩ :=
                ih hunique.of_append.1 hvalue
              refine ⟨earlier, last, later ++ [tree], found, by simp, hlast, hsame, ?_⟩
              rw [List.forall_mem_append, List.forall_mem_singleton]
              exact ⟨hlater, hfound, hstops⟩

/-- What one of the trees holds stays in the merged tree, possibly under another value, as
long as no later tree stops the steps. -/
theorem isSome_at?_mergeAll {earlier later : List Object} {tree : Object}
    (hunique : AllUnique (earlier ++ tree :: later))
    (hfound : ((Value.object tree).at? steps).isSome)
    (hlater : ∀ tree ∈ later, (Value.object tree).stops steps = false) :
    ((Value.object (mergeAll (earlier ++ tree :: later))).at? steps).isSome := by
  induction later using List.reverseRecOn with
  | nil =>
      obtain ⟨found, hfound⟩ := Option.isSome_iff_exists.1 hfound
      rw [at?_mergeAll_append_singleton (hunique tree (by simp)), hfound]
      rfl
  | append_singleton later next ih =>
      rw [← List.cons_append, ← List.append_assoc] at hunique ⊢
      rw [List.forall_mem_append, List.forall_mem_singleton] at hlater
      rw [at?_mergeAll_append_singleton (hunique next (by simp))]
      cases (Value.object next).at? steps with
      | some found => rfl
      | none =>
          rw [hlater.2, if_neg Bool.false_ne_true]
          exact ih hunique.of_append.1 hlater.1

/-- A token of merged trees is a token of the last tree that has a value in its place, and no
later tree has a token there. -/
theorem exists_isLastAt (hunique : AllUnique trees) (hleaf : HasLeaf keys (mergeAll trees) path)
    {value : Value} (hvalue : authoredValue? keys (mergeAll trees) path = some value) :
    ∃ earlier last found, IsLastAt keys path trees earlier last ∧
      authoredValue? keys last path = some found ∧
        value = overlay (authoredValue? keys (mergeAll earlier) path) found := by
  obtain ⟨earlier, last, later, found, rfl, hfound, hsame, hlater⟩ :=
    exists_last_of_at?_mergeAll hunique hvalue (by simp)
  refine ⟨earlier, last, found, ⟨?_, later, rfl, ?_⟩, hfound, hsame⟩
  · obtain ⟨hne, hreserved, -, hgroups⟩ := (hasLeaf_iff_at? (uniqueKeys_mergeAll hunique)).1 hleaf
    refine (hasLeaf_iff_at? (hunique last (by simp))).2
      ⟨hne, hreserved, by rw [hfound]; rfl, ?_⟩
    intro n hn hpositive
    -- A group of the last tree that were a token would be one in the merged tree.
    by_contra hsome
    have hstops : ∀ tree ∈ later,
        (Value.object tree).stops (path.take n ++ [keys.value]) = false :=
      fun tree htree => stops_take (hlater tree htree).2 hn keys.value
    have hmerged := isSome_at?_mergeAll hunique (Option.isSome_iff_ne_none.2 hsome) hstops
    rw [hgroups n hn hpositive] at hmerged
    cases hmerged
  · intro tree htree hthere
    obtain ⟨-, -, hsome, -⟩ := (hasLeaf_iff_at? (hunique tree (by simp [htree]))).1 hthere
    rw [(hlater tree htree).1] at hsome
    cases hsome

end Tree

namespace Loading

open DesignTokens.Tree

variable {files : FileTree} {keys : Keys} {paths : List Path}

/-- The value of a token stands at its path in the tree from which it is read. -/
theorem authoredValue?_of_tokensOf (hkeys : keys.Apart) {tree : Object}
    (hunique : (Value.object tree).UniqueKeys) {tokens : List Authored}
    (htokens : tokensOf keys tree = .ok tokens) {token : Authored} (htoken : token ∈ tokens) :
    authoredValue? keys tree token.path = some token.value := by
  rw [tokensOf, authored_delegate hkeys hunique, Failing.mapM_eq_ok] at htokens
  obtain ⟨content, hcontent, hread⟩ := Paired.exists_of_mem_right htokens htoken
  obtain ⟨leaf, hleaf, hpath, hsame⟩ := exists_leaf_of_mem_contents hkeys hcontent
  obtain ⟨step, steps, member, hsteps, hmember, hfound, hvalue⟩ :=
    exists_of_mem_leaves tree hunique hleaf
  obtain ⟨value, hvalue⟩ := Option.isSome_iff_exists.1 hvalue
  have htree : (Value.object tree).at? leaf.path = some (.object leaf.entries) := by
    rw [hsteps, Value.at?_object_cons, hmember]
    exact hfound
  rw [authoredValue?, path_of_authoredAt hread, List.nil_append, hpath, Value.at?_append, htree,
    value_of_authoredAt hread, hsame, hvalue, Option.bind_some, Value.at?_object_cons, hvalue]
  rfl

/-- The value of a token is the one that the last file with a token at its path has there, laid
over what the earlier files together hold in that place. It is the authored value itself,
member by member, exactly if the earlier value has no member beside those of the authored
one, and to the letter if also the order of the members is the same. -/
theorem value_of_readTokens {dtcg : Bool} {tokens : List Authored}
    (htokens : (readTokens files paths dtcg).result = .ok tokens) {token : Authored}
    (htoken : token ∈ tokens) :
    ∃ trees earlier last authored,
      List.Forall₂ (fun path tree => readTree files path = .ok tree) paths trees ∧
        IsLastAt (Keys.of dtcg) token.path trees earlier last ∧
          authoredValue? (Keys.of dtcg) last token.path = some authored ∧
            token.value =
              overlay (authoredValue? (Keys.of dtcg) (mergeAll earlier) token.path) authored ∧
              (token.value.SameUpToOrder authored ↔
                ∀ old, authoredValue? (Keys.of dtcg) (mergeAll earlier) token.path = some old →
                  ¬ old.HasMemberBeside authored) ∧
                (token.value = authored ↔
                  ∀ old, authoredValue? (Keys.of dtcg) (mergeAll earlier) token.path = some old →
                    old.IsCoveredBy authored) := by
  obtain ⟨loaded, merged, hreads, hmerged, rfl⟩ := exists_loaded_of_readTokens htokens
  obtain ⟨found, hfound, rfl⟩ := List.mem_map.1 htoken
  obtain ⟨trees, htrees, htree⟩ := hreads.trees
  have hkeys := Keys.apart_of dtcg
  have hleaf : HasLeaf (Keys.of dtcg) loaded.tree found.path :=
    ((mem_paths_of_tokensOf_iff hkeys hreads.unique hmerged).1 (List.mem_map_of_mem hfound)).1
  have hvalue := authoredValue?_of_tokensOf hkeys hreads.unique hmerged hfound
  have hunique : AllUnique trees := by
    intro tree hmem
    obtain ⟨path, -, hread⟩ := Paired.exists_of_mem_right htrees hmem
    exact uniqueKeys_of_readTree hread
  rw [htree] at hleaf hvalue
  obtain ⟨earlier, last, authored, hlast, hauthored, hsame⟩ := exists_isLastAt hunique hleaf hvalue
  obtain ⟨later, rfl, -⟩ := hlast.exists_later
  have hearlier := uniqueKeys_mergeAll hunique.of_append.1
  have hlatest : authored.UniqueKeys := (hunique last (by simp)).at? hauthored
  refine ⟨_, earlier, last, authored, htrees, hlast, hauthored, hsame, ?_, ?_⟩
  · change found.value.SameUpToOrder authored ↔ _
    rw [hsame]
    exact sameUpToOrder_overlay_iff hlatest
  · change found.value = authored ↔ _
    rw [hsame]
    exact overlay_eq_self_iff (fun old hold => hearlier.at? hold) hlatest

/-- Two files with one color. The second one gives it no alpha. -/
def repainted : FileTree where
  entries :=
    [(["a.json"], .text ("\x7b\"ink\": \x7b\"$value\": \x7b\"colorSpace\": \"srgb\", " ++
        "\"components\": [\"0\", \"0\", \"0\"], \"alpha\": \"0.5\"\x7d\x7d\x7d")),
      (["b.json"], .text ("\x7b\"ink\": \x7b\"$value\": \x7b\"colorSpace\": \"srgb\", " ++
        "\"components\": [\"1\", \"1\", \"1\"]\x7d\x7d\x7d"))]

def repaintedPaths : List Path := [⟨"", ["a.json"]⟩, ⟨"", ["b.json"]⟩]

/-- A color with three equal components. -/
def gray (component : String) : Object :=
  [("colorSpace", .text "srgb"), ("components", .list (List.replicate 3 (.text component)))]

/-- The tree of the first file. -/
def fainted : Object := [("ink", .object [("$value", .object (gray "0" ++ [("alpha", .text "0.5")]))])]

/-- The tree of the second file. -/
def whitened : Object := [("ink", .object [("$value", .object (gray "1"))])]

/-- The token of both files together. -/
def repaintedInk : Authored where
  path := ["ink"]
  type := .null
  value := .object (gray "1" ++ [("alpha", .text "0.5")])
  extensions := []
  description := .null
  source := some "b.json"

theorem readTokens_repainted :
    (readTokens repainted repaintedPaths true).result = .ok [repaintedInk] := by
  cbv

theorem readTree_repainted :
    repaintedPaths.map (readTree repainted) = [.ok fainted, .ok whitened] := by
  cbv

theorem value_of_readTokens_repainted :
    (readTokens repainted repaintedPaths true).result = .ok [repaintedInk] ∧
      ∃ trees earlier last authored,
        List.Forall₂ (fun path tree => readTree repainted path = .ok tree) repaintedPaths trees ∧
          IsLastAt (Keys.of true) repaintedInk.path trees earlier last ∧
            authoredValue? (Keys.of true) last repaintedInk.path = some authored ∧
              repaintedInk.value = overlay
                (authoredValue? (Keys.of true) (mergeAll earlier) repaintedInk.path) authored ∧
                (repaintedInk.value.SameUpToOrder authored ↔ ∀ old,
                  authoredValue? (Keys.of true) (mergeAll earlier) repaintedInk.path = some old →
                    ¬ old.HasMemberBeside authored) ∧
                  (repaintedInk.value = authored ↔ ∀ old,
                    authoredValue? (Keys.of true) (mergeAll earlier) repaintedInk.path = some old →
                      old.IsCoveredBy authored) :=
  ⟨readTokens_repainted, value_of_readTokens readTokens_repainted (List.mem_singleton_self _)⟩

theorem isLastAt_repainted :
    IsLastAt (Keys.of true) repaintedInk.path [fainted, whitened] [fainted] whitened where
  hasLeaf := by
    rw [HasLeaf]
    decide
  exists_later := ⟨[], rfl, by simp⟩

/-- The value of a token can have a member that only an earlier file gives it. -/
theorem not_authored_repainted :
    ¬ ∀ (files : FileTree) (paths : List Path) (dtcg : Bool) (tokens : List Authored),
      (readTokens files paths dtcg).result = .ok tokens → ∀ token ∈ tokens,
        ∀ trees earlier last authored,
          List.Forall₂ (fun path tree => readTree files path = .ok tree) paths trees →
            IsLastAt (Keys.of dtcg) token.path trees earlier last →
              authoredValue? (Keys.of dtcg) last token.path = some authored →
                token.value.SameUpToOrder authored := by
  intro hwhole
  have htrees : List.Forall₂ (fun path tree => readTree repainted path = .ok tree) repaintedPaths
      [fainted, whitened] := by
    obtain ⟨hfirst, hrest⟩ := List.cons.inj readTree_repainted
    obtain ⟨hsecond, -⟩ := List.cons.inj hrest
    exact .cons hfirst (.cons hsecond .nil)
  have hsame := hwhole repainted repaintedPaths true _ readTokens_repainted repaintedInk
    (List.mem_singleton_self _) _ _ _ (.object (gray "1")) htrees isLastAt_repainted rfl
  have halpha := hsame ["alpha"]
  have hkept : repaintedInk.value.at? ["alpha"] = some (.text "0.5") := rfl
  have hnone : (Value.object (gray "1")).at? ["alpha"] = none := rfl
  rw [hkept, hnone] at halpha
  cases halpha

end Loading

end DesignTokens
