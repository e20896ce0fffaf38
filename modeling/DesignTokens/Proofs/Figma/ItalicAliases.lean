import DesignTokens.Proofs.Figma.Overwritten
import DesignTokens.Proofs.Reference.Dotted
import DesignTokens.Proofs.Reference.Grammar

/-!
# Aliases of italic weights

The italic modifier writes an ending into the alias of a weight, in front of the closing brace.
So the alias names the last step of the weight with the ending, wherever the weight lies, and
with the blanks that stood behind it. Italic weights are made of the weights right below their
group only, and only of those that are exported.
-/

namespace DesignTokens

namespace Text

/-- Text that starts and ends with characters that are kept is not trimmed. -/
theorem trimWhere_eq_self {drop : Char → Bool} {chars : List Char} {first last : Char}
    (hhead : chars.head? = some first) (hlast : chars.getLast? = some last)
    (hfirstKept : drop first = false) (hlastKept : drop last = false) :
    trimWhere drop chars = chars := by
  have hkeep {chars : List Char} {c : Char} (hhead : chars.head? = some c) (hc : drop c = false) :
      chars.dropWhile drop = chars := by
    obtain ⟨rest, rfl⟩ := List.head?_eq_some_iff.1 hhead
    exact List.dropWhile_cons_of_neg (by simp [hc])
  have hback : chars.reverse.head? = some last := by rw [List.head?_reverse, hlast]
  rw [trimWhere, hkeep hhead hfirstKept, hkeep hback hlastKept, List.reverse_reverse]

end Text

namespace Figma

open DesignTokens.Tree DesignTokens.Value

/-- A text between braces is not trimmed. -/
theorem trimWhere_braced (inner : List Char) :
    Text.trimWhere Text.isBlank ('\x7b' :: inner ++ ['\x7d']) = '\x7b' :: inner ++ ['\x7d'] :=
  Text.trimWhere_eq_self rfl List.getLast?_concat (by decide) (by decide)

/-- An alias of a weight starts with a brace, and its target without a blank. -/
theorem exists_toList_of_weightAliasStart {text : String}
    (hstart : weightAliasStart.isPrefixOf text = true) :
    ∃ rest, text.toList = '\x7b' :: 't' :: rest := by
  obtain ⟨rest, rfl⟩ := Text.isPrefixOf_iff.1 hstart
  have hopen : weightAliasStart.toList = '\x7b' :: 't' :: "ypography.weight.".toList := by
    decide
  exact ⟨"ypography.weight.".toList ++ rest.toList, by rw [String.toList_append, hopen]; rfl⟩

/-- Between the braces of an alias that is rewritten the target comes first, then blanks. -/
theorem exists_inner_of_italicAlias {text target : String}
    (halias : Reference.alias? text = some target)
    (hrewritten : italicAlias (.text text) ≠ .text text) :
    ∃ inner after, Reference.IsInner inner ∧ text.toList = '\x7b' :: inner ++ ['\x7d'] ∧
      inner.head? = some 't' ∧ inner = target.toList ++ after ∧
        (∀ c ∈ after, Text.isBlank c = true) ∧
          italicAlias (.text text) = .text (String.ofList ('\x7b' :: inner) ++ "Italic\x7d") := by
  rw [italicAlias] at hrewritten ⊢
  split at hrewritten
  · next hstart =>
      obtain ⟨inner, hinner, htrim, rfl⟩ := Reference.alias?_eq_some_iff.1 halias
      obtain ⟨rest, hchars⟩ := exists_toList_of_weightAliasStart hstart.1
      have hwhole : text.toList = '\x7b' :: inner ++ ['\x7d'] := by
        rw [← htrim]
        have hhead : text.toList.head? = some '\x7b' := by rw [hchars, List.head?_cons]
        exact (Text.trimWhere_eq_self hhead hstart.2 (by decide) (by decide)).symm
      have hhead : inner.head? = some 't' := by
        obtain ⟨first, others, rfl⟩ := List.exists_cons_of_ne_nil hinner.ne_nil
        rw [hchars] at hwhole
        exact congrArg some (List.cons.inj (List.cons.inj hwhole).2).1.symm
      obtain ⟨before, after, hsplit, hbefore, hafter⟩ :=
        Text.exists_eq_append_trimWhere Text.isBlank inner
      have hnone : before = [] := by
        cases before with
        | nil => rfl
        | cons c others =>
            rw [hsplit] at hhead
            obtain rfl : c = 't' := Option.some.inj hhead
            exact absurd (hbefore 't' List.mem_cons_self) (by decide)
      refine ⟨inner, after, hinner, hwhole, hhead, ?_, hafter, ?_⟩
      · rw [Reference.target, String.toList_ofList]
        rw [hnone, List.nil_append] at hsplit
        exact hsplit
      · rw [if_pos hstart, hwhole, List.dropLast_concat]
  · exact absurd rfl hrewritten

/-- The ending that makes an alias italic goes behind the blanks that follow its target. -/
theorem exists_of_italicAlias {text target : String}
    (halias : Reference.alias? text = some target)
    (hrewritten : italicAlias (.text text) ≠ .text text) :
    ∃ pad : String, (∀ c ∈ pad.toList, Text.isBlank c = true) ∧
      text = "\x7b" ++ target ++ pad ++ "\x7d" ∧
        italicAlias (.text text) = .text ("\x7b" ++ target ++ pad ++ "Italic\x7d") ∧
          Reference.alias? ("\x7b" ++ target ++ pad ++ "Italic\x7d") =
            some (target ++ pad ++ "Italic") := by
  obtain ⟨inner, after, hinner, hwhole, hhead, rfl, hafter, hitalic⟩ :=
    exists_inner_of_italicAlias halias hrewritten
  have hopen : "\x7b".toList = ['\x7b'] := by decide
  have hclose : "\x7d".toList = ['\x7d'] := by decide
  have hending : "Italic\x7d".toList = "Italic".toList ++ ['\x7d'] := by decide
  refine ⟨String.ofList after, by simpa using hafter, ?_, ?_, ?_⟩
  · apply String.toList_injective
    simp [hwhole, hopen, hclose]
  · rw [hitalic]
    apply congrArg Value.text
    apply String.toList_injective
    simp [hopen]
  · rw [Reference.alias?_eq_some_iff]
    refine ⟨target.toList ++ after ++ "Italic".toList, ⟨?_, ?_, ?_⟩, ?_, ?_⟩
    · simp
    · rw [List.mem_append, not_or]
      exact ⟨hinner.no_open, by decide⟩
    · rw [List.mem_append, not_or]
      exact ⟨hinner.no_close, by decide⟩
    · rw [← trimWhere_braced]
      simp [hopen, hending]
    · have hfirst : (target.toList ++ after ++ "Italic".toList).head? = some 't' := by
        rw [List.head?_append, hhead, Option.some_or]
      have hlast : (target.toList ++ after ++ "Italic".toList).getLast? = some 'c' := by
        have hending : "Italic".toList.getLast? = some 'c' := by decide
        rw [List.getLast?_append, hending, Option.some_or]
      rw [Reference.target, Text.trimWhere_eq_self hfirst hlast (by decide) (by decide)]
      apply String.toList_injective
      simp

/-! ## Leaves below the weights -/

variable {keys : Keys} {dtcg : Bool} {dictionary : Dictionary} {placed base modifier : Object}
  {path : TokenPath} {value : Value} {weight : Token} {style text target name : String}
  {groups : List String}

/-- The tree has a leaf at the path. -/
def HoldsLeaf (keys : Keys) (tree : Object) (path : TokenPath) : Prop :=
  ∃ node, (Value.object tree).at? path = some node ∧ isLeaf keys node = true

/-- With the italic weights come their leaves, and of the others those over which none is put. -/
theorem holdsLeaf_withItalicWeights_iff (hkeys : keys.Apart)
    (hunique : (Value.object placed).UniqueKeys) (hbeyond : ¬ path <+: weightGroup) :
    HoldsLeaf keys (withItalicWeights keys placed) path ↔
      (∃ name, path = weightGroup ++ [name ++ "Italic"] ∧ (weight? keys placed name).isSome) ∨
        HoldsLeaf keys placed path ∧ ∀ name, (weight? keys placed name).isSome →
          ¬ weightGroup ++ [name ++ "Italic"] <+: path := by
  by_cases hover : ∃ name, (weight? keys placed name).isSome ∧
      weightGroup ++ [name ++ "Italic"] <+: path
  · obtain ⟨name, hname, rest, rfl⟩ := hover
    obtain ⟨value, hweight⟩ := Option.isSome_iff_exists.1 hname
    have hhere : HoldsLeaf keys (withItalicWeights keys placed)
        (weightGroup ++ [name ++ "Italic"] ++ rest) ↔ rest = [] := by
      rw [HoldsLeaf, at?_withItalicWeights_of_weight? hunique hweight]
      constructor
      · rintro ⟨node, hnode, hleaf⟩
        exact ((at?_italicLeaf_eq_some_iff hkeys hleaf).1 hnode).1
      · rintro rfl
        exact ⟨_, rfl, isLeaf_leaf hkeys⟩
    rw [hhere]
    constructor
    · rintro rfl
      exact .inl ⟨name, List.append_nil _, hname⟩
    · rintro (⟨other, hsame, -⟩ | ⟨-, hfree⟩)
      · have hlength := congrArg List.length hsame
        simpa using hlength
      · exact absurd ⟨rest, rfl⟩ (hfree name hname)
  · have hfree : ∀ name, (weight? keys placed name).isSome →
        ¬ weightGroup ++ [name ++ "Italic"] <+: path :=
      fun name hname hstart => hover ⟨name, hname, hstart⟩
    rw [HoldsLeaf, at?_withItalicWeights_eq_self hunique hbeyond fun name value hweight =>
      hfree name (hweight ▸ rfl), ← HoldsLeaf, and_iff_left hfree, or_iff_right]
    rintro ⟨name, rfl, hname⟩
    exact hfree name hname (List.prefix_refl _)

/-- If there is a style with a default, no token in the place of all styles is stray. -/
theorem not_isStray_of_style (hnests : Nests (Keys.of dtcg)
      (exported (Keys.of dtcg) dictionary dictionary.tokens) placed)
    (hdefault : (Value.object placed).at?
      (textGroup ++ [style, Token.defaultVariant, (Keys.of dtcg).value]) = some (.object base)) :
    ¬ ∃ token ∈ dictionary.tokens, IsStray (Keys.of dtcg) dictionary token := by
  have hkeys := Keys.apart_of dtcg
  rintro ⟨token, htoken, hpath, node, value, hentry, hvalue, group, default, rfl, -, hmember,
    hplain⟩
  obtain ⟨found, hfound, hsame, rfl⟩ := exists_mem_exported hkeys htoken hentry
  rw [at?_append, ← hpath, ← hsame, hnests.at?_of_mem hfound, Option.bind_some] at hdefault
  rcases eq_of_at?_leaf hkeys hdefault with ⟨-, hrest, -⟩ | ⟨-, hinside⟩
  · cases hrest
  · have hgroup : found.value = .object group :=
      Option.some.inj ((member?_leaf_value hkeys _ _).symm.trans hvalue)
    rw [hgroup, at?_object_cons, hmember, Option.bind_some, at?_cons_of_not_object hplain]
      at hinside
    cases hinside

theorem exists_eq_object_of_at? {found : Value} {step : String} {rest : List String}
    (hfound : value.at? (step :: rest) = some found) : ∃ entries, value = .object entries := by
  cases value with
  | object entries => exact ⟨entries, rfl⟩
  | _ => cases hfound

/-- A style of the tree with a default whose weight is named otherwise in italics, and an italic
modifier beside it. -/
structure HasItalicAlias (keys : Keys) (placed : Object) (style : String) (base : Object)
    (text : String) : Prop where
  group : (Value.object placed).at? (textGroup ++ [style, keys.value]) = none
  default : (Value.object placed).at? (textGroup ++ [style, Token.defaultVariant, keys.value]) =
    some (.object base)
  modifier : ∃ node parts, (Value.object placed).at? (textGroup ++ ["italic"]) = some node ∧
    modifier? keys node = some parts ∧ Entries.contains parts "fontStyle" = true
  weight : Entries.get? base "fontWeight" = some (.text text)
  rewritten : italicAlias (.text text) ≠ .text text

theorem get?_italicStyle (hweight : Entries.get? base "fontWeight" = some value) :
    Entries.get? (italicStyle base) "fontWeight" = some (italicAlias value) := by
  rw [italicStyle, hweight]
  dsimp only
  rw [Entries.get?_erase, if_neg (by decide), Entries.get?_insert,
    if_pos (beq_self_eq_true "fontWeight")]

/-- The styles can be combined if one of them has a default with parts, and then that style
stands in the document in italics. -/
theorem exists_textStyles_of_style (hloaded : Loading.IsLoaded dictionary)
    (hplaced : entries (Keys.of dtcg) dictionary dictionary.tokens = .ok placed)
    (hstyle : HasItalicAlias (Keys.of dtcg) placed style base text) :
    ∃ combined,
      withCombinations (Keys.of dtcg) (withItalicWeights (Keys.of dtcg) placed) = .ok combined ∧
        (Value.object (prune (Keys.of dtcg) combined)).at? (textGroup ++ [style, "italic"]) =
          some (leaf (Keys.of dtcg) (some "typography") (.object (italicStyle base))) := by
  have hkeys := Keys.apart_of dtcg
  have hnests := nests_of_entries hloaded hkeys hplaced
  have hunique := uniqueKeys_of_nests_exported hloaded hkeys hnests
  have hitalic : (Value.object (withItalicWeights (Keys.of dtcg) placed)).UniqueKeys :=
    uniqueKeys_withItalicWeights hunique
  have htext (rest : List String) :
      (Value.object (withItalicWeights (Keys.of dtcg) placed)).at? (textGroup ++ rest) =
        (Value.object placed).at? (textGroup ++ rest) :=
    at?_withItalicWeights_textGroup hunique rest
  obtain ⟨combined, hcombined⟩ :=
    (exists_combined_iff hunique hnests).2 (not_isStray_of_style hnests hstyle.default)
  refine ⟨combined, hcombined, ?_⟩
  obtain ⟨node, parts, hnode, hparts, hslanted⟩ := hstyle.modifier
  -- The group of the style and its default stand in the tree, and the default has parts.
  have hbase := hstyle.default
  have hgroup := hstyle.group
  rw [← htext, List.append_cons, at?_append] at hbase hgroup
  obtain ⟨member, hmember, hbase⟩ := Option.bind_eq_some_iff.1 hbase
  rw [hmember, Option.bind_some] at hgroup
  obtain ⟨group, rfl⟩ := exists_eq_object_of_at? hbase
  rw [at?_object_singleton] at hgroup
  rw [at?_object_cons] at hbase
  obtain ⟨default, hdefault, hbase⟩ := Option.bind_eq_some_iff.1 hbase
  obtain ⟨members, rfl⟩ := exists_eq_object_of_at? hbase
  rw [at?_object_singleton] at hbase
  have hstands := at?_of_withCombinations_style hitalic hcombined hmember
    (by rw [Entries.contains, hgroup]; rfl) hdefault hbase ((htext ["italic"]).trans hnode) hparts
  rw [modify, if_pos ⟨rfl, hslanted⟩] at hstands
  rw [at?_prune_eq_some_iff (uniqueKeys_of_withCombinations hitalic hcombined)
    (isLeaf_leaf hkeys) (by simp [textGroup])]
  exact hstands

/-- The leaves below the weights come into the document with the italic weights. -/
theorem holdsLeaf_textStyles_iff {tree combined : Object} (hunique : (Value.object tree).UniqueKeys)
    (hcombined : withCombinations keys tree = .ok combined) (rest : List String) :
    HoldsLeaf keys (prune keys combined) (weightGroup ++ rest) ↔
      HoldsLeaf keys tree (weightGroup ++ rest) := by
  have houtside : ¬ textGroup <+: weightGroup ++ rest := by simp [textGroup, weightGroup]
  have hbeyond : ¬ weightGroup ++ rest <+: textGroup := by simp [textGroup, weightGroup]
  exact exists_congr fun node => and_congr_left fun hnode =>
    at?_textStyles_eq_some_iff hunique hcombined hnode houtside hbeyond

/-- A token right below the weights is a weight, unless it is left out for its name. -/
theorem isSome_weight?_of_token (hnests : Nests (Keys.of dtcg)
      (exported (Keys.of dtcg) dictionary dictionary.tokens) placed)
    (hweight : weight ∈ dictionary.tokens) (hpath : weight.path = weightGroup ++ [name])
    (htype : weight.type = some "fontWeight") (hname : name ∉ excludedNames) :
    (weight? (Keys.of dtcg) placed name).isSome := by
  have hkeys := Keys.apart_of dtcg
  have hkept : weight.path.any excludedNames.contains = false := by
    have hgroup : "typography" ∉ excludedNames ∧ "weight" ∉ excludedNames := by decide
    simpa [hpath, weightGroup] using ⟨hgroup.1, hgroup.2, hname⟩
  have hentry : entry? (Keys.of dtcg) dictionary weight =
      some (leaf (Keys.of dtcg) (some "fontWeights") (weightName (outputValue weight))) := by
    have htake : weight.path.take 2 = weightGroup := by
      rw [hpath]
      rfl
    simp [htype, hkept, htake, entry?]
  obtain ⟨found, hfound, hsame, hleaf⟩ := exists_mem_exported hkeys hweight hentry
  have hthere := hnests.at?_of_mem hfound
  rw [hsame, hleaf, hpath] at hthere
  rw [weight?, List.append_cons, at?_append, hthere, Option.bind_some, ← member?_eq_at?,
    member?_leaf_value hkeys]
  rfl

/-- At an italic name below the weights, and below groups of them, stands the italic weight of a
weight right below them, or else what was placed there, unless one of the groups is such an
italic weight now. -/
theorem holdsLeaf_italic_iff (hkeys : keys.Apart) (hunique : (Value.object placed).UniqueKeys) :
    HoldsLeaf keys (withItalicWeights keys placed) (weightGroup ++ (groups ++ [name ++ "Italic"])) ↔
      groups = [] ∧ (weight? keys placed name).isSome ∨
        HoldsLeaf keys placed (weightGroup ++ (groups ++ [name ++ "Italic"])) ∧
          ∀ other, (weight? keys placed other).isSome →
            groups.head? ≠ some (other ++ "Italic") := by
  rw [holdsLeaf_withItalicWeights_iff hkeys hunique (by simp [weightGroup])]
  have hright : ∀ other, weightGroup ++ (groups ++ [name ++ "Italic"]) =
      weightGroup ++ [other ++ "Italic"] ↔ groups = [] ∧ name = other := by
    intro other
    cases groups <;> simp [String.append_left_inj]
  have hbelow : ∀ other, weightGroup ++ [other ++ "Italic"] <+:
        weightGroup ++ (groups ++ [name ++ "Italic"]) ↔
      groups.head? = some (other ++ "Italic") ∨ groups = [] ∧ name = other := by
    intro other
    cases groups <;> simp [weightGroup, String.append_left_inj, eq_comm]
  simp only [hright, hbelow, not_or]
  cases groups with
  | nil =>
      cases hname : (weight? keys placed name).isSome with
      | true => simp [hname]
      | false =>
          have hfree : ∀ other, (weight? keys placed other).isSome → name ≠ other := by
            rintro other hother rfl
            rw [hname] at hother
            cases hother
          simpa [hname] using fun _ => hfree
  | cons group rest => simp

/-- A style whose weight is an alias below the weights is in the document in italics, with the
ending in its alias. There is a leaf at the path that this alias names if the weight lies right
below the weights, its name is not left out and its alias ends without a blank. In the other
cases there can be one by chance: that of another weight or of a token with that very path. -/
theorem holdsLeaf_italicAlias_iff (hloaded : Loading.IsLoaded dictionary)
    (hplaced : entries (Keys.of dtcg) dictionary dictionary.tokens = .ok placed)
    (hstyle : HasItalicAlias (Keys.of dtcg) placed style base text)
    (halias : Reference.alias? text = some target)
    (hweight : dictionary.get? (Reference.path target) = some weight)
    (htype : weight.type = some "fontWeight")
    (hpath : Reference.path target = weightGroup ++ groups ++ [name]) :
    ∃ document pad, textStyles (Keys.of dtcg) dictionary dictionary.tokens = .ok document ∧
      (Value.object document).at? (textGroup ++ [style, "italic"]) =
        some (leaf (Keys.of dtcg) (some "typography") (.object (italicStyle base))) ∧
      (∀ c ∈ pad.toList, Text.isBlank c = true) ∧ text = "\x7b" ++ target ++ pad ++ "\x7d" ∧
      Entries.get? (italicStyle base) "fontWeight" =
        some (.text ("\x7b" ++ target ++ pad ++ "Italic\x7d")) ∧
      Reference.alias? ("\x7b" ++ target ++ pad ++ "Italic\x7d") =
        some (target ++ pad ++ "Italic") ∧
      (HoldsLeaf (Keys.of dtcg) document (Reference.path (target ++ pad ++ "Italic")) ↔
        groups = [] ∧ (weight? (Keys.of dtcg) placed (name ++ pad)).isSome ∨
          HoldsLeaf (Keys.of dtcg) placed (Reference.path (target ++ pad ++ "Italic")) ∧
            ∀ other, (weight? (Keys.of dtcg) placed other).isSome →
              groups.head? ≠ some (other ++ "Italic")) ∧
      (groups = [] → pad = "" → name ∉ excludedNames →
        HoldsLeaf (Keys.of dtcg) document (Reference.path (target ++ pad ++ "Italic"))) := by
  have hkeys := Keys.apart_of dtcg
  have hnests := nests_of_entries hloaded hkeys hplaced
  have hunique := uniqueKeys_of_nests_exported hloaded hkeys hnests
  obtain ⟨combined, hcombined, hitalic⟩ := exists_textStyles_of_style hloaded hplaced hstyle
  obtain ⟨pad, hpad, htext, hrewritten, hnamed⟩ := exists_of_italicAlias halias hstyle.rewritten
  have hnew : Reference.path (target ++ pad ++ "Italic") =
      weightGroup ++ (groups ++ [name ++ pad ++ "Italic"]) := by
    have hsuffix : '.' ∉ (pad ++ "Italic").toList := by
      rw [String.toList_append, List.mem_append, not_or]
      exact ⟨fun hdot => absurd (hpad '.' hdot) (by decide), by decide⟩
    rw [String.append_assoc, Reference.path_append hpath hsuffix, ← String.append_assoc,
      List.append_assoc]
  have hleaf := (holdsLeaf_textStyles_iff (uniqueKeys_withItalicWeights hunique) hcombined
    (groups ++ [name ++ pad ++ "Italic"])).trans (holdsLeaf_italic_iff hkeys hunique)
  rw [← hnew] at hleaf
  refine ⟨_, pad, (textStyles_eq_ok_iff hplaced).2 ⟨combined, hcombined, rfl⟩, hitalic, hpad, htext,
    ?_, hnamed, hleaf, ?_⟩
  · rw [get?_italicStyle hstyle.weight, hrewritten]
  · rintro rfl rfl hname
    obtain ⟨hmem, hsame⟩ := Dictionary.get?_eq_some_iff.1 hweight
    refine hleaf.2 (.inl ⟨rfl, ?_⟩)
    rw [String.append_empty]
    exact isSome_weight?_of_token hnests hmem (hsame.trans hpath) htype hname

/-- A leaf of a tree that is loaded. -/
def authoredLeaf (type : String) (value : Value) : Value :=
  .object [("$type", .text type), ("$value", value)]

/-- A weight right below the weights and one in a group, each with a style, and an italic
modifier. -/
def displayTree : Object :=
  [("typography", .object [
    ("weight", .object [("bold", authoredLeaf "fontWeight" (.int 700)),
      ("display", .object [("bold", authoredLeaf "fontWeight" (.int 800))])]),
    ("text", .object [
      ("italic", authoredLeaf "typography" (.object [("fontStyle", .text "italic")])),
      ("body", .object [("default", authoredLeaf "typography"
        (.object [("fontWeight", .text "\x7btypography.weight.bold\x7d")]))]),
      ("display", .object [("default", authoredLeaf "typography"
        (.object [("fontWeight", .text "\x7btypography.weight.display.bold\x7d")]))])])])]

/-- The tokens of the tree before they are resolved. -/
def displayAuthored : List Authored :=
  [⟨["typography", "weight", "bold"], .text "fontWeight", .int 700, [], .null, none⟩,
    ⟨["typography", "weight", "display", "bold"], .text "fontWeight", .int 800, [], .null, none⟩,
    ⟨["typography", "text", "italic"], .text "typography", .object [("fontStyle", .text "italic")],
      [], .null, none⟩,
    ⟨["typography", "text", "body", "default"], .text "typography",
      .object [("fontWeight", .text "\x7btypography.weight.bold\x7d")], [], .null, none⟩,
    ⟨["typography", "text", "display", "default"], .text "typography",
      .object [("fontWeight", .text "\x7btypography.weight.display.bold\x7d")], [], .null, none⟩]

/-- The weight right below the weights. -/
def displayBold : Token :=
  ⟨["typography", "weight", "bold"], "typography-weight-bold", some "fontWeight", .int 700,
    .int 700, none, none, [], none⟩

/-- The weight in the group. -/
def displayWeight : Token :=
  ⟨["typography", "weight", "display", "bold"], "typography-weight-display-bold",
    some "fontWeight", .int 800, .int 800, none, none, [], none⟩

/-- The default of its style. -/
def displayDefault : Token :=
  ⟨["typography", "text", "display", "default"], "typography-text-display-default",
    some "typography", .object [("fontWeight", .int 800)],
    .object [("fontWeight", .text "\x7btypography.weight.display.bold\x7d")], none, none, [], none⟩

/-- The tokens of the tree. -/
def displayTokens : Dictionary where
  tokens :=
    [displayBold, displayWeight,
      ⟨["typography", "text", "italic"], "typography-text-italic", some "typography",
        .object [("fontStyle", .text "italic")], .object [("fontStyle", .text "italic")], none,
        none, [], none⟩,
      ⟨["typography", "text", "body", "default"], "typography-text-body-default",
        some "typography", .object [("fontWeight", .int 700)],
        .object [("fontWeight", .text "\x7btypography.weight.bold\x7d")], none, none, [], none⟩,
      displayDefault]
  nodup_paths := by decide

/-- The leaves of the tokens. -/
def displayPlaced : Object :=
  [("typography", .object [
    ("weight", .object [("bold", leaf (Keys.of true) (some "fontWeights") (.text "Bold")),
      ("display", .object [
        ("bold", leaf (Keys.of true) (some "fontWeights") (.text "Extra Bold"))])]),
    ("text", .object [
      ("italic", leaf (Keys.of true) (some "typography") (.object [("fontStyle", .text "italic")])),
      ("body", .object [("default", leaf (Keys.of true) (some "typography")
        (.object [("fontWeight", .text "\x7btypography.weight.bold\x7d")]))]),
      ("display", .object [("default", leaf (Keys.of true) (some "typography")
        (.object [("fontWeight", .text "\x7btypography.weight.display.bold\x7d")]))])])])]

theorem isLoaded_display : Loading.IsLoaded displayTokens := by
  have hunique : (Value.object displayTree).UniqueKeys := by
    simp [displayTree, authoredLeaf, UniqueKeys, EntriesUnique, Entries.keys]
  have htokens : Loading.tokensOf (Keys.of true) displayTree = .ok displayAuthored := rfl
  have hresolved : Resolution.resolve displayAuthored none = .ok displayTokens.tokens := by
    cbv
  exact .of_resolve hunique htokens hresolved

theorem entries_display :
    entries (Keys.of true) displayTokens displayTokens.tokens = .ok displayPlaced := by
  rfl

theorem hasItalicAlias_body : HasItalicAlias (Keys.of true) displayPlaced "body"
    [("fontWeight", .text "\x7btypography.weight.bold\x7d")] "\x7btypography.weight.bold\x7d" where
  group := rfl
  default := rfl
  modifier := ⟨_, _, rfl, rfl, rfl⟩
  weight := rfl
  rewritten := by
    have hitalic : italicAlias (.text "\x7btypography.weight.bold\x7d") =
        .text "\x7btypography.weight.boldItalic\x7d" := by
      cbv
    rw [hitalic, ne_eq, Value.text.injEq]
    decide

theorem holdsLeaf_italicAlias_iff_body :
    Loading.IsLoaded displayTokens ∧
      entries (Keys.of true) displayTokens displayTokens.tokens = .ok displayPlaced ∧
      HasItalicAlias (Keys.of true) displayPlaced "body"
        [("fontWeight", .text "\x7btypography.weight.bold\x7d")] "\x7btypography.weight.bold\x7d" ∧
      Reference.alias? "\x7btypography.weight.bold\x7d" = some "typography.weight.bold" ∧
      Reference.path "typography.weight.bold" = weightGroup ++ [] ++ ["bold"] ∧
      displayTokens.get? (Reference.path "typography.weight.bold") = some displayBold ∧
      displayBold.type = some "fontWeight" ∧
      ∃ document, textStyles (Keys.of true) displayTokens displayTokens.tokens = .ok document ∧
        (Value.object document).at? (textGroup ++ ["body", "italic"]) =
          some (leaf (Keys.of true) (some "typography") (.object (italicStyle
            [("fontWeight", .text "\x7btypography.weight.bold\x7d")]))) ∧
        HoldsLeaf (Keys.of true) document (weightGroup ++ ["boldItalic"]) := by
  have halias : Reference.alias? "\x7btypography.weight.bold\x7d" =
      some "typography.weight.bold" := by
    cbv
  have hpath : Reference.path "typography.weight.bold" = weightGroup ++ [] ++ ["bold"] := by
    cbv
  have hweight : displayTokens.get? (Reference.path "typography.weight.bold") =
      some displayBold := by
    rw [hpath]
    rfl
  obtain ⟨document, pad, hdocument, hitalic, -, htext, -, -, -, hleaf⟩ :=
    holdsLeaf_italicAlias_iff isLoaded_display entries_display hasItalicAlias_body halias hweight
      rfl hpath
  obtain rfl : pad = "" := by
    have hlength := congrArg String.length htext
    have hplain : "\x7btypography.weight.bold\x7d".length = 24 ∧ "\x7b".length = 1 ∧
        "typography.weight.bold".length = 22 ∧ "\x7d".length = 1 := by decide
    rw [String.length_append, String.length_append, String.length_append] at hlength
    exact String.length_eq_zero_iff.1 (by omega)
  have hnamed : Reference.path ("typography.weight.bold" ++ "" ++ "Italic") =
      weightGroup ++ ["boldItalic"] := by
    cbv
  rw [hnamed] at hleaf
  exact ⟨isLoaded_display, entries_display, hasItalicAlias_body, halias, hpath, hweight, rfl,
    document, hdocument, hitalic, hleaf rfl rfl (by decide)⟩

theorem textStyles_display :
    ∃ document, textStyles (Keys.of true) displayTokens displayTokens.tokens = .ok document ∧
      (Value.object document).at? (textGroup ++ ["display", "italic", "$value", "fontWeight"]) =
        some (italicAlias (.text "\x7btypography.weight.display.bold\x7d")) ∧
      (Value.object document).at? (weightGroup ++ ["display", "boldItalic"]) = none :=
  ⟨_, rfl, rfl, rfl⟩

/-- An italic style can have an alias of a weight that is not there. -/
theorem not_holdsLeaf_display :
    ¬ ∀ (dictionary : Dictionary) (dtcg : Bool) (document : Object) (default weight : Token)
      (style text target rewritten named : String), Loading.IsLoaded dictionary →
        textStyles (Keys.of dtcg) dictionary dictionary.tokens = .ok document →
        default ∈ dictionary.tokens → default.path = textGroup ++ [style, Token.defaultVariant] →
        (outputValue default).at? ["fontWeight"] = some (.text text) →
        Reference.alias? text = some target →
        dictionary.get? (Reference.path target) = some weight →
        weight.type = some "fontWeight" → weightGroup <+: weight.path →
        (Value.object document).at? (textGroup ++ [style, "italic", (Keys.of dtcg).value,
          "fontWeight"]) = some (.text rewritten) → rewritten ≠ text →
        Reference.alias? rewritten = some named →
          HoldsLeaf (Keys.of dtcg) document (Reference.path named) := by
  intro hclaim
  obtain ⟨document, hdocument, hstyle, hnone⟩ := textStyles_display
  have hrewritten : italicAlias (.text "\x7btypography.weight.display.bold\x7d") =
      .text "\x7btypography.weight.display.boldItalic\x7d" := by
    cbv
  have halias : Reference.alias? "\x7btypography.weight.display.bold\x7d" =
      some "typography.weight.display.bold" := by
    cbv
  have hpath : Reference.path "typography.weight.display.bold" = displayWeight.path := by
    cbv
  have hitalic : Reference.alias? "\x7btypography.weight.display.boldItalic\x7d" =
      some "typography.weight.display.boldItalic" := by
    cbv
  have hnamed : Reference.path "typography.weight.display.boldItalic" =
      weightGroup ++ ["display", "boldItalic"] := by
    cbv
  have hdefault : displayDefault ∈ displayTokens.tokens := by simp [displayTokens]
  have hweight : displayTokens.get? (Reference.path "typography.weight.display.bold") =
      some displayWeight := by
    rw [hpath]
    rfl
  rw [hrewritten] at hstyle
  obtain ⟨node, hnode, -⟩ := hclaim displayTokens true document displayDefault displayWeight
    "display" _ _ _ _ isLoaded_display hdocument hdefault rfl rfl halias hweight rfl (by decide)
    hstyle (by decide) hitalic
  rw [hnamed, hnone] at hnode
  cases hnode

end Figma

end DesignTokens
