import DesignTokens.Proofs.Figma.Modified
import DesignTokens.Proofs.Figma.Pruned

/-!
# What is written over

Every exported token is placed, but the passes that follow write to the tree without looking.
An italic weight takes the place of a token with its name and of all tokens below such a
group, and a leaf at the place of all weights is written to as if it were a group. The other
tokens that do not lie among the text styles stay as they are. A token in the place of all
text styles can even end the export with an error.
-/

namespace DesignTokens.Figma

open DesignTokens.Tree DesignTokens.Value

variable {keys : Keys} {dtcg : Bool} {dictionary : Dictionary} {token : Token}
  {placed tree : Object} {path : TokenPath} {node : Value} {type : Option String} {value : Value}

/-- What a leaf holds is its type, or it is its value or lies in it. -/
theorem eq_of_at?_leaf (hkeys : keys.Apart) {name : String} {rest : List String} {found : Value}
    (hfound : (leaf keys type value).at? (name :: rest) = some found) :
    name = keys.type ∧ rest = [] ∧ found.isObject = false ∨
      name = keys.value ∧ value.at? rest = some found := by
  rw [leaf_eq hkeys, at?_object_cons, Entries.get?_cons] at hfound
  split at hfound
  · next hname =>
      rw [Option.bind_some] at hfound
      refine .inl ⟨(beq_iff_eq.1 hname).symm, ?_⟩
      cases type <;> cases rest <;> cases hfound <;> exact ⟨rfl, rfl⟩
  · rw [Entries.get?_cons] at hfound
    split at hfound
    · next hname => exact .inr ⟨(beq_iff_eq.1 hname).symm, hfound⟩
    · cases hfound

/-- A leaf is no group of weights or text styles. -/
theorem at?_leaf_eq_none {name : String} (hname : name = "text" ∨ name = "weight")
    (rest : List String) : (leaf (Keys.of dtcg) type value).at? (name :: rest) = none := by
  rw [Option.eq_none_iff_forall_ne_some]
  intro found hfound
  have hkey : name = (Keys.of dtcg).type ∨ name = (Keys.of dtcg).value :=
    (eq_of_at?_leaf (Keys.apart_of dtcg) hfound).imp And.left And.left
  revert hkey
  rcases hname with rfl | rfl <;> cases dtcg <;> decide

theorem isLeaf_leaf (hkeys : keys.Apart) : isLeaf keys (leaf keys type value) = true := by
  rw [isLeaf, hasMember, member?_leaf_value hkeys]
  rfl

/-- Below an italic weight stands no leaf. -/
theorem at?_italicLeaf_eq_some_iff (hkeys : keys.Apart) {rest : List String}
    (hnode : isLeaf keys node = true) :
    (italicLeaf keys value).at? rest = some node ↔ rest = [] ∧ node = italicLeaf keys value := by
  constructor
  · intro hfound
    cases rest with
    | nil => exact ⟨rfl, (Option.some.inj hfound).symm⟩
    | cons name more =>
        have hobject : node.isObject = true := by
          cases node with
          | object => rfl
          | _ => cases hnode
        rcases eq_of_at?_leaf hkeys hfound with ⟨-, -, hplain⟩ | ⟨-, hinside⟩
        · rw [hobject] at hplain
          cases hplain
        · cases more with
          | nil =>
              obtain rfl := Option.some.inj hinside
              cases hobject
          | cons => cases hinside
  · rintro ⟨rfl, rfl⟩
    rfl

/-- The italic weight of some weight is written over the token or over a group around it, or
into the token itself if it stands in the place of all weights. -/
def Displaced (keys : Keys) (placed : Object) (path : TokenPath) (node : Value) : Prop :=
  ∃ name value, weight? keys placed name = some value ∧
    (path = weightGroup ∨ weightGroup ++ [name ++ "Italic"] <+: path ∧
      (path = weightGroup ++ [name ++ "Italic"] → node ≠ italicLeaf keys value))

/-- A token in the place of all text styles whose value holds a broken style. -/
def IsStray (keys : Keys) (dictionary : Dictionary) (token : Token) : Prop :=
  token.path = textGroup ∧ ∃ node value, entry? keys dictionary token = some node ∧
    node.member? keys.value = some value ∧ IsBroken keys value

theorem replaceInner_eq_self {outer inner : String} {group : Object}
    (hgroup : innerGroup? tree outer inner = some group) :
    replaceInner tree outer inner group = tree := by
  rw [innerGroup?_eq_some_iff, at?_object_cons] at hgroup
  obtain ⟨member, hmember, hinner⟩ := Option.bind_eq_some_iff.1 hgroup
  cases member with
  | object entries =>
      rw [at?_object_cons] at hinner
      obtain ⟨found, hfound, hsame⟩ := Option.bind_eq_some_iff.1 hinner
      obtain rfl : found = .object group := Option.some.inj hsame
      rw [replaceInner, hmember]
      dsimp only
      rw [Entries.insert_of_get?_eq_some hfound, Entries.insert_of_get?_eq_some hmember]
  | _ => cases hinner

theorem withItalicWeights_eq_self (hunique : (Value.object tree).UniqueKeys)
    (hnone : ∀ name, weight? keys tree name = none) : withItalicWeights keys tree = tree := by
  rw [withItalicWeights]
  split
  · next weights hweights =>
      have hnodup := (hunique.at? (innerGroup?_eq_some_iff.1 hweights)).nodup
      have hempty : italicEntries keys weights = [] := by
        rw [List.eq_nil_iff_forall_not_mem]
        intro entry hentry
        have hfound := Entries.get?_eq_some_of_mem (nodup_keys_italicEntries hnodup) hentry
        obtain ⟨name, value, hvalue, -⟩ := (get?_italicEntries_eq_some_iff hnodup).1 hfound
        rw [← weight?_eq_at? hweights, hnone] at hvalue
        cases hvalue
      rw [italicWeights_eq_update, hempty]
      exact replaceInner_eq_self hweights
  · rfl

/-- The passes over the tree are run one after another. -/
theorem textStyles_eq_ok_iff {document : Object}
    (hplaced : entries keys dictionary dictionary.tokens = .ok placed) :
    textStyles keys dictionary dictionary.tokens = .ok document ↔
      ∃ combined, withCombinations keys (withItalicWeights keys placed) = .ok combined ∧
        prune keys combined = document := by
  rw [textStyles, hplaced]
  constructor
  · intro hdocument
    obtain ⟨found, hfound, hrest⟩ := Failing.bind_eq_ok.1 hdocument
    obtain rfl : placed = found := Except.ok.inj hfound
    obtain ⟨combined, hcombined, hend⟩ := Failing.bind_eq_ok.1 hrest
    exact ⟨combined, hcombined, Except.ok.inj hend⟩
  · rintro ⟨combined, hcombined, rfl⟩
    exact Failing.bind_eq_ok.2 ⟨placed, rfl, Failing.bind_eq_ok.2 ⟨combined, hcombined, rfl⟩⟩

theorem not_isPrefix_textGroup_append {rest : List String} (name : String) :
    ¬ weightGroup ++ [name] <+: textGroup ++ rest := by
  simp [weightGroup, textGroup]

/-- The text styles are those that were placed. -/
theorem at?_withItalicWeights_textGroup (hunique : (Value.object placed).UniqueKeys)
    (rest : List String) :
    (Value.object (withItalicWeights keys placed)).at? (textGroup ++ rest) =
      (Value.object placed).at? (textGroup ++ rest) := by
  apply at?_withItalicWeights_eq_self hunique
  · simp [weightGroup, textGroup, List.prefix_cons_iff]
  · exact fun name value _ => not_isPrefix_textGroup_append _

/-- A style below the text styles is broken exactly if it is the value of a stray token. -/
theorem forall_not_isBroken_iff (hnests : Nests (Keys.of dtcg)
      (exported (Keys.of dtcg) dictionary dictionary.tokens) placed) :
    (∀ name node, (Value.object placed).at? (textGroup ++ [name]) = some node →
        ¬ IsBroken (Keys.of dtcg) node) ↔
      ¬ ∃ token ∈ dictionary.tokens, IsStray (Keys.of dtcg) dictionary token := by
  have hkeys := Keys.apart_of dtcg
  constructor
  · rintro hsound ⟨token, htoken, hpath, node, value, hentry, hvalue, hbroken⟩
    obtain ⟨found, hfound, hsame, rfl⟩ := exists_mem_exported hkeys htoken hentry
    apply hsound (Keys.of dtcg).value value _ hbroken
    rw [at?_append, ← hpath, ← hsame, hnests.at?_of_mem hfound, Option.bind_some,
      ← member?_eq_at?, hvalue]
  · rintro hstray name node hnode ⟨group, default, rfl, hgroup, hdefault, hplain⟩
    change (Value.object placed).at? ["typography", "text", name] = _ at hnode
    obtain ⟨outer, houter, hinner⟩ := Option.bind_eq_some_iff.1 hnode
    rcases hnests.exists_of_get? houter with
      ⟨found, -, -, rfl⟩ | ⟨below, typography, rfl, hbelow, hall⟩
    · rw [Placed.leaf, at?_leaf_eq_none (.inl rfl)] at hinner
      cases hinner
    obtain ⟨text, htext, hmember⟩ := Option.bind_eq_some_iff.1 hinner
    rcases hbelow.exists_of_get? htext with
      ⟨found, hfound, hpath, rfl⟩ | ⟨styles, _, rfl, hstyles, -⟩
    · -- The leaf stands in the place of all text styles.
      obtain ⟨token, htoken, hsame, hentry⟩ := exists_of_mem_exported hkeys (hall found hfound)
      rcases eq_of_at?_leaf hkeys hmember with ⟨-, -, hscalar⟩ | ⟨-, hvalue⟩
      · cases hscalar
      · refine hstray ⟨token, htoken, ?_, _, _, hentry, member?_leaf_value hkeys _ _, ?_⟩
        · rw [hsame, Placed.under, hpath]
          rfl
        · have hvalue' : found.value = .object group := Option.some.inj hvalue
          exact ⟨group, default, hvalue', hgroup, hdefault, hplain⟩
    · obtain ⟨member, hstyle, hsame⟩ := Option.bind_eq_some_iff.1 hmember
      obtain rfl : member = .object group := Option.some.inj hsame
      rcases hstyles.exists_of_get? hstyle with
        ⟨found, -, -, hleaf⟩ | ⟨variants, _, hsame, hvariants, -⟩
      · have hisLeaf : isLeaf (Keys.of dtcg) (.object group) = true := hleaf ▸ isLeaf_leaf hkeys
        rw [isLeaf_object, hgroup] at hisLeaf
        cases hisLeaf
      · cases hsame
        rcases hvariants.exists_of_get? hdefault with ⟨found, -, -, rfl⟩ | ⟨_, _, rfl, -⟩
        · cases hplain
        · cases hplain

/-- The placed styles are combined exactly if no token is stray. -/
theorem exists_combined_iff (hunique : (Value.object placed).UniqueKeys)
    (hnests : Nests (Keys.of dtcg) (exported (Keys.of dtcg) dictionary dictionary.tokens) placed) :
    (∃ combined,
        withCombinations (Keys.of dtcg) (withItalicWeights (Keys.of dtcg) placed) = .ok combined) ↔
      ¬ ∃ token ∈ dictionary.tokens, IsStray (Keys.of dtcg) dictionary token := by
  rw [exists_withCombinations_iff (uniqueKeys_withItalicWeights hunique),
    ← forall_not_isBroken_iff hnests]
  simp only [at?_withItalicWeights_textGroup hunique]

theorem eq_of_isPrefix {outer inner : String} (hpath : path ≠ [])
    (hstart : path <+: [outer, inner]) : path = [outer] ∨ path = [outer, inner] := by
  cases path with
  | nil => exact absurd rfl hpath
  | cons first rest =>
      obtain ⟨rfl, hrest⟩ := List.cons_prefix_cons.1 hstart
      cases rest with
      | nil => exact .inl rfl
      | cons second more =>
          obtain ⟨rfl, hmore⟩ := List.cons_prefix_cons.1 hrest
          rw [List.prefix_nil.1 hmore]
          exact .inr rfl

/-- If a leaf stands in the place of weights and styles, there are none. -/
theorem at?_eq_none_of_leaf {name : String} (hname : name = "text" ∨ name = "weight")
    (hleaf : (Value.object placed).at? ["typography"] = some (leaf (Keys.of dtcg) type value))
    (rest : List String) : (Value.object placed).at? (["typography"] ++ name :: rest) = none := by
  rw [at?_append, hleaf, Option.bind_some, at?_leaf_eq_none hname]

/-- A leaf in the place of all weights has no weight but its own value, and does not hold an
italic weight. -/
theorem displaced_of_leaf
    (hleaf : (Value.object placed).at? weightGroup = some (leaf (Keys.of dtcg) type value))
    (hunique : (Value.object placed).UniqueKeys) {name : String} {found : Value}
    (hweight : weight? (Keys.of dtcg) placed name = some found) :
    (Value.object (withItalicWeights (Keys.of dtcg) placed)).at? weightGroup ≠
      some (leaf (Keys.of dtcg) type value) := by
  intro hsame
  have hitalic := at?_withItalicWeights_of_weight? hunique hweight []
  rw [List.append_nil, at?_append, hsame, Option.bind_some] at hitalic
  have hkeys := Keys.apart_of dtcg
  rw [weight?, at?_append, hleaf, Option.bind_some] at hweight
  have hname : name = (Keys.of dtcg).value := by
    rcases eq_of_at?_leaf hkeys hweight with ⟨-, hrest, -⟩ | ⟨hname, -⟩
    · cases hrest
    · exact hname
  have hkey : name ++ "Italic" = (Keys.of dtcg).type ∨ name ++ "Italic" = (Keys.of dtcg).value :=
    (eq_of_at?_leaf hkeys hitalic).imp And.left And.left
  subst hname
  revert hkey
  cases dtcg <;> decide

/-- The italic weights leave a token as it is exactly if they do not displace it. -/
theorem at?_withItalicWeights_iff (hunique : (Value.object placed).UniqueKeys) (hpath : path ≠ [])
    (hplaced : (Value.object placed).at? path = some (leaf (Keys.of dtcg) type value)) :
    (Value.object (withItalicWeights (Keys.of dtcg) placed)).at? path =
        some (leaf (Keys.of dtcg) type value) ↔
      ¬ Displaced (Keys.of dtcg) placed path (leaf (Keys.of dtcg) type value) := by
  have hkeys := Keys.apart_of dtcg
  by_cases hnone : ∀ name, weight? (Keys.of dtcg) placed name = none
  · rw [withItalicWeights_eq_self hunique hnone]
    refine iff_of_true hplaced ?_
    rintro ⟨name, found, hweight, -⟩
    rw [hnone] at hweight
    cases hweight
  by_cases hbeyond : path <+: weightGroup
  · rcases eq_of_isPrefix hpath hbeyond with rfl | rfl
    · exact absurd (fun name => at?_eq_none_of_leaf (.inr rfl) hplaced _) hnone
    · obtain ⟨name, hname⟩ := not_forall.1 hnone
      obtain ⟨found, hweight⟩ := Option.ne_none_iff_exists'.1 hname
      refine iff_of_false (displaced_of_leaf hplaced hunique hweight) (not_not.2 ?_)
      exact ⟨name, found, hweight, .inl rfl⟩
  by_cases hover : ∃ name found, weight? (Keys.of dtcg) placed name = some found ∧
      weightGroup ++ [name ++ "Italic"] <+: path
  · obtain ⟨name, found, hweight, rest, rfl⟩ := hover
    rw [at?_withItalicWeights_of_weight? hunique hweight rest,
      at?_italicLeaf_eq_some_iff hkeys (isLeaf_leaf hkeys)]
    constructor
    · rintro ⟨rfl, hsame⟩ ⟨other, value, hother, hgroup | ⟨hstart, hne⟩⟩
      · simp [weightGroup] at hgroup
      · have hname : other ++ "Italic" = name ++ "Italic" := by
          simpa [weightGroup] using hstart
        obtain rfl := String.append_left_inj _ |>.1 hname
        obtain rfl := Option.some.inj (hweight.symm.trans hother)
        exact hne (List.append_nil _) hsame
    · intro hkept
      by_contra hne
      refine hkept ⟨name, found, hweight, .inr ⟨⟨rest, rfl⟩, fun hhere hsame => hne ⟨?_, hsame⟩⟩⟩
      exact List.append_right_eq_self.1 hhere
  · rw [at?_withItalicWeights_eq_self hunique hbeyond fun name found hweight hstart =>
      hover ⟨name, found, hweight, hstart⟩]
    refine iff_of_true hplaced ?_
    rintro ⟨name, found, hweight, rfl | ⟨hstart, -⟩⟩
    · exact hbeyond (List.prefix_refl _)
    · exact hover ⟨name, found, hweight, hstart⟩

/-- The leaves away from the text styles come out of the last passes as they go in. -/
theorem at?_textStyles_eq_some_iff {combined : Object} (hunique : (Value.object tree).UniqueKeys)
    (hcombined : withCombinations keys tree = .ok combined) (hnode : isLeaf keys node = true)
    (houtside : ¬ textGroup <+: path) (hbeyond : ¬ path <+: textGroup) :
    (Value.object (prune keys combined)).at? path = some node ↔
      (Value.object tree).at? path = some node := by
  have hpath : path ≠ [] := by
    rintro rfl
    exact hbeyond List.nil_prefix
  rw [at?_prune_eq_some_iff (uniqueKeys_of_withCombinations hunique hcombined) hnode hpath,
    at?_of_withCombinations hcombined houtside hbeyond]

/-- A leaf that was placed away from the text styles comes out of the last passes exactly if the
italic weights leave it. -/
theorem at?_combined_iff {combined : Object} (hunique : (Value.object placed).UniqueKeys)
    (hcombined : withCombinations (Keys.of dtcg) (withItalicWeights (Keys.of dtcg) placed) =
      .ok combined) (hpath : path ≠ [])
    (hplaced : (Value.object placed).at? path = some (leaf (Keys.of dtcg) type value))
    (houtside : ¬ textGroup <+: path) :
    (Value.object (prune (Keys.of dtcg) combined)).at? path =
        some (leaf (Keys.of dtcg) type value) ↔
      (Value.object (withItalicWeights (Keys.of dtcg) placed)).at? path =
        some (leaf (Keys.of dtcg) type value) := by
  have hnode : isLeaf (Keys.of dtcg) (leaf (Keys.of dtcg) type value) = true :=
    isLeaf_leaf (Keys.apart_of dtcg)
  by_cases hbeyond : path <+: textGroup
  · -- The leaf stands in the place of weights and styles, so that there are no styles.
    have htop : path = ["typography"] := by
      rcases eq_of_isPrefix hpath hbeyond with htop | hsame
      · exact htop
      · exact absurd (hsame ▸ List.prefix_refl _) houtside
    have hnone : (Value.object (withItalicWeights (Keys.of dtcg) placed)).at? (textGroup ++ []) =
        none := by
      rw [at?_withItalicWeights_textGroup hunique]
      exact at?_eq_none_of_leaf (.inl rfl) (htop ▸ hplaced) []
    rw [withCombinations, innerGroup?_eq_at?, ← textGroup, ← List.append_nil textGroup, hnone]
      at hcombined
    obtain rfl := Except.ok.inj hcombined
    exact at?_prune_eq_some_iff (uniqueKeys_withItalicWeights hunique) hnode hpath
  · exact at?_textStyles_eq_some_iff (uniqueKeys_withItalicWeights hunique) hcombined hnode houtside
      hbeyond

/-- The exported tokens of a loaded dictionary are placed without fail. The passes that follow
fail exactly if there is a stray token among them, and a token away from the text styles is in
the document as it was placed exactly if no italic weight displaces it. -/
theorem at?_textStyles_iff (hloaded : Loading.IsLoaded dictionary) (dtcg : Bool) :
    ∃ placed, entries (Keys.of dtcg) dictionary dictionary.tokens = .ok placed ∧
      ((∃ document, textStyles (Keys.of dtcg) dictionary dictionary.tokens = .ok document) ↔
        ¬ ∃ token ∈ dictionary.tokens, IsStray (Keys.of dtcg) dictionary token) ∧
      ∀ document, textStyles (Keys.of dtcg) dictionary dictionary.tokens = .ok document →
        ∀ token ∈ dictionary.tokens, ∀ node, entry? (Keys.of dtcg) dictionary token = some node →
          ¬ textGroup <+: token.path →
            ((Value.object document).at? token.path = some node ↔
              ¬ Displaced (Keys.of dtcg) placed token.path node) := by
  have hkeys := Keys.apart_of dtcg
  obtain ⟨placed, hplaced, hnests⟩ := exists_entries hloaded hkeys
  have hunique := uniqueKeys_of_nests_exported hloaded hkeys hnests
  refine ⟨placed, hplaced, ?_, ?_⟩
  · rw [← exists_combined_iff hunique hnests]
    simp only [textStyles_eq_ok_iff hplaced]
    constructor
    · rintro ⟨_, combined, hcombined, -⟩
      exact ⟨combined, hcombined⟩
    · rintro ⟨combined, hcombined⟩
      exact ⟨_, combined, hcombined, rfl⟩
  · intro document hdocument token htoken node hentry houtside
    obtain ⟨combined, hcombined, rfl⟩ := (textStyles_eq_ok_iff hplaced).1 hdocument
    obtain ⟨found, hfound, hpath, rfl⟩ := exists_mem_exported hkeys htoken hentry
    have hne := hnests.path_ne_nil found hfound
    have hthere := hnests.at?_of_mem hfound
    rw [hpath] at hne hthere
    exact (at?_combined_iff hunique hcombined hne hthere houtside).trans
      (at?_withItalicWeights_iff hunique hne hthere)

/-- A weight, and beside it one that has the name of its italic weight. -/
def obliqueTree : Object :=
  [("typography", .object [("weight", .object [
    ("bold", .object [("$type", .text "fontWeight"), ("$value", .int 700)]),
    ("boldItalic", .object [("$type", .text "fontWeight"), ("$value", .text "Bold Oblique")])])])]

/-- The token of the second weight. -/
def obliqueToken : Token :=
  ⟨["typography", "weight", "boldItalic"], "typography-weight-bold-italic", some "fontWeight",
    .text "Bold Oblique", .text "Bold Oblique", none, none, [], none⟩

def obliqueTokens : Dictionary where
  tokens :=
    [⟨["typography", "weight", "bold"], "typography-weight-bold", some "fontWeight", .int 700,
        .int 700, none, none, [], none⟩, obliqueToken]
  nodup_paths := by decide

theorem isLoaded_oblique : Loading.IsLoaded obliqueTokens := by
  have hunique : (Value.object obliqueTree).UniqueKeys := by
    simp [obliqueTree, UniqueKeys, EntriesUnique, Entries.keys]
  have htokens : Loading.tokensOf (Keys.of true) obliqueTree = .ok
      [⟨["typography", "weight", "bold"], .text "fontWeight", .int 700, [], .null, none⟩,
        ⟨["typography", "weight", "boldItalic"], .text "fontWeight", .text "Bold Oblique", [],
          .null, none⟩] := rfl
  have hresolved : Resolution.resolve
      [⟨["typography", "weight", "bold"], .text "fontWeight", .int 700, [], .null, none⟩,
        ⟨["typography", "weight", "boldItalic"], .text "fontWeight", .text "Bold Oblique", [],
          .null, none⟩] none = .ok obliqueTokens.tokens := by
    cbv
  exact .of_resolve hunique htokens hresolved

theorem at?_textStyles_iff_oblique :
    Loading.IsLoaded obliqueTokens ∧
      ∃ placed, entries (Keys.of true) obliqueTokens obliqueTokens.tokens = .ok placed ∧
        ((∃ document, textStyles (Keys.of true) obliqueTokens obliqueTokens.tokens = .ok document) ↔
          ¬ ∃ token ∈ obliqueTokens.tokens, IsStray (Keys.of true) obliqueTokens token) ∧
        ∀ document, textStyles (Keys.of true) obliqueTokens obliqueTokens.tokens = .ok document →
          ∀ token ∈ obliqueTokens.tokens, ∀ node,
            entry? (Keys.of true) obliqueTokens token = some node → ¬ textGroup <+: token.path →
              ((Value.object document).at? token.path = some node ↔
                ¬ Displaced (Keys.of true) placed token.path node) :=
  ⟨isLoaded_oblique, at?_textStyles_iff isLoaded_oblique true⟩

theorem textStyles_oblique :
    ∃ document, textStyles (Keys.of true) obliqueTokens obliqueTokens.tokens = .ok document ∧
      (Value.object document).at? (obliqueToken.path ++ ["$value"]) = some (.text "Bold Italic") :=
  ⟨_, rfl, rfl⟩

/-- An italic weight can take the place of a token. -/
theorem not_kept_oblique :
    ¬ ∀ (dictionary : Dictionary) (dtcg : Bool) (document : Object), Loading.IsLoaded dictionary →
      textStyles (Keys.of dtcg) dictionary dictionary.tokens = .ok document →
        ∀ token ∈ dictionary.tokens, ∀ node, entry? (Keys.of dtcg) dictionary token = some node →
          ¬ textGroup <+: token.path → (Value.object document).at? token.path = some node := by
  intro hclaim
  obtain ⟨document, hdocument, hitalic⟩ := textStyles_oblique
  have hentry : entry? (Keys.of true) obliqueTokens obliqueToken =
      some (leaf (Keys.of true) (some "fontWeights") (.text "Bold Oblique")) := by
    rfl
  have hkept := hclaim obliqueTokens true document isLoaded_oblique hdocument obliqueToken
    (by simp [obliqueTokens]) _ hentry (by decide)
  rw [at?_append, hkept] at hitalic
  have htext : Value.text "Bold Oblique" = .text "Bold Italic" := Option.some.inj hitalic
  rw [Value.text.injEq] at htext
  revert htext
  decide

end DesignTokens.Figma
