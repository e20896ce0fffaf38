import DesignTokens.Figma.TextStyles
import DesignTokens.Proofs.Figma.Nested
import DesignTokens.Proofs.Stylesheet.Inheritance

/-!
# Variants in stylesheets and in documents

A variant of a text style takes the parts that it lacks from the default of its group. A
stylesheet looks the default up by group and mode among the composite tokens, and keeps the
resolved parts beside the authored ones; a document takes the token that lies beside the
variant, and of either the value that is written. For tokens without a mode both find the
same default and put the same parts together.
-/

namespace DesignTokens.Figma

open Stylesheet.Typography

variable {dictionary : Dictionary} {found : List (DefaultKey × Token)} {token default : Token}

/-- What is written of a loaded token is what was authored. -/
theorem outputValue_of_isLoaded (hloaded : Loading.IsLoaded dictionary)
    (htoken : token ∈ dictionary.tokens) : outputValue token = token.original :=
  outputValue_eq_original (hloaded.replaced htoken).2

theorem variantPath_of_mode_eq_none (hmode : token.mode = none) :
    variantPath token = token.path := by
  rw [variantPath, hmode]

/-- A style without a mode is found as the token at its path. -/
theorem lastStyle?_eq_get? {path : TokenPath} (hstyle : ∀ other,
    dictionary.get? path = some other → isComposite other = true ∧ other.mode = none) :
    lastStyle? dictionary.tokens path none = dictionary.get? path := by
  ext other
  constructor
  · intro hother
    have hkind := List.find?_some hother
    simp only [Bool.and_eq_true, beq_iff_eq] at hkind
    obtain ⟨⟨-, hpath⟩, hmode⟩ := hkind
    rw [variantPath_of_mode_eq_none hmode] at hpath
    exact Dictionary.get?_eq_some_iff.2 ⟨(isComposite_of_lastStyle? hother).1, hpath⟩
  · intro hother
    obtain ⟨hcomposite, hmode⟩ := hstyle other hother
    obtain ⟨hmem, hpath⟩ := Dictionary.get?_eq_some_iff.1 hother
    cases hlast : lastStyle? dictionary.tokens path none with
    | none =>
        have hnot := List.find?_eq_none.1 hlast other (List.mem_reverse.2 hmem)
        simp [hcomposite, hmode, variantPath_of_mode_eq_none hmode, hpath] at hnot
    | some last =>
        have hkind := List.find?_some hlast
        simp only [Bool.and_eq_true, beq_iff_eq] at hkind
        have hsame : last.path = other.path := by
          rw [← variantPath_of_mode_eq_none hkind.2, hkind.1.2, hpath]
        rw [List.inj_on_of_nodup_map dictionary.nodup_paths (isComposite_of_lastStyle? hlast).1
          hmem hsame]

/-- A style with a path has a full form. -/
theorem exists_withDefault (found : List (DefaultKey × Token)) (hpath : variantPath token ≠ []) :
    ∃ full, withDefault found token = .ok full := by
  have hname : variantName token = .ok ((variantPath token).getLast hpath) :=
    variantName_eq_ok.2 (List.getLast?_eq_some_getLast hpath)
  rw [withDefault, hname]
  dsimp only [bind, Except.bind]
  split
  · exact ⟨_, rfl⟩
  · split
    · exact ⟨_, rfl⟩
    · split <;> exact ⟨_, rfl⟩

theorem authoredParts_of_original {entries : Object}
    (horiginal : token.original = .object entries) : authoredParts token = entries := by
  rw [authoredParts, horiginal]
  rfl

/-- The default of a variant without a mode lies beside it. -/
theorem inheritedFrom?_eq_get? (hmode : token.mode = none)
    (hvariant : token.isDefaultVariant = false)
    (hdefault : ∀ default,
      dictionary.get? (token.groupPath ++ [Token.defaultVariant]) = some default →
        isComposite default = true ∧ default.mode = none) :
    inheritedFrom? dictionary.tokens token =
      dictionary.get? (token.groupPath ++ [Token.defaultVariant]) := by
  have hlast : token.path.getLast? ≠ some Token.defaultVariant := by
    simpa [Token.isDefaultVariant] using hvariant
  rw [inheritedFrom?, variantPath_of_mode_eq_none hmode, if_neg hlast, hmode]
  dsimp only
  rw [Option.or_self]
  exact lastStyle?_eq_get? hdefault

/-- A variant without a mode, with the parts of its default, is the same mapping in a document
as in a stylesheet, where the parts are authored ones and stand in the same order. -/
theorem variantValue_eq_original (hloaded : Loading.IsLoaded dictionary)
    (hfound : defaults dictionary.tokens = .ok found) (htoken : token ∈ dictionary.tokens)
    (hcomposite : isComposite token = true) (hmode : token.mode = none)
    (hlength : 2 ≤ token.path.length) (hvariant : token.isDefaultVariant = false)
    (hmapping : token.original.isObject = true)
    (hdefault : ∀ default,
      dictionary.get? (token.groupPath ++ [Token.defaultVariant]) = some default →
        isComposite default = true ∧ default.mode = none ∧ default.original.isObject = true) :
    ∃ full parts, withDefault found token = .ok full ∧ full.original = .object parts ∧
      variantValue dictionary token = .object parts := by
  obtain ⟨own, hown⟩ := Value.eq_object_of_isObject hmapping
  have hpath : variantPath token ≠ [] := by
    rw [variantPath_of_mode_eq_none hmode]
    exact List.ne_nil_of_length_pos (by omega)
  obtain ⟨full, hfull⟩ := exists_withDefault found hpath
  have hfilled := eq_filled_of_withDefault hfound hcomposite hfull
  rw [inheritedFrom?_eq_get? hmode hvariant fun default hbeside =>
    ⟨(hdefault default hbeside).1, (hdefault default hbeside).2.1⟩] at hfilled
  have hplain : ¬ (token.isDefaultVariant = true ∨ token.path.length < 2) :=
    not_or.2 ⟨Bool.eq_false_iff.1 hvariant, by omega⟩
  rw [variantValue, outputValue_of_isLoaded hloaded htoken, hown]
  dsimp only
  rw [if_neg hplain]
  cases hbeside : dictionary.get? (token.groupPath ++ [Token.defaultVariant]) with
  | none =>
      rw [hbeside] at hfilled
      exact ⟨full, own, hfull, by rw [hfilled]; exact hown, rfl⟩
  | some default =>
      obtain ⟨-, -, hobject⟩ := hdefault default hbeside
      obtain ⟨inherited, hinherited⟩ := Value.eq_object_of_isObject hobject
      have hmem := (Dictionary.get?_eq_some_iff.1 hbeside).1
      rw [hbeside] at hfilled
      refine ⟨full, Entries.update inherited own, hfull, ?_, ?_⟩
      · rw [hfilled, filled, authoredParts_of_original hinherited, authoredParts_of_original hown]
      · rw [Option.map_some, outputValue_of_isLoaded hloaded hmem, hinherited]

open Stylesheet

/-- The parts of the small heading: three of the default in their order, the weight its own,
and the line height behind them. -/
def smallHeadingParts : Object :=
  [("fontFamily", .text "Inter"), ("fontSize", .text "\x7bgap\x7d"), ("fontWeight", .text ""),
    ("lineHeight", .int 1)]

theorem variantValue_eq_original_smallHeading :
    headingTokens.get? (smallHeading.groupPath ++ [Token.defaultVariant]) = some defaultHeading ∧
      defaults headingTokens.tokens = .ok [((["heading"], none), defaultHeading)] ∧
      ∃ full parts, withDefault [((["heading"], none), defaultHeading)] smallHeading = .ok full ∧
        full.original = .object parts ∧
        variantValue headingTokens smallHeading = .object parts ∧ parts = smallHeadingParts := by
  have hbeside : headingTokens.get? (smallHeading.groupPath ++ [Token.defaultVariant]) =
      some defaultHeading := rfl
  have hfound : defaults headingTokens.tokens = .ok [((["heading"], none), defaultHeading)] := rfl
  have hmem : smallHeading ∈ headingTokens.tokens := by simp [headingTokens]
  have hdefault : ∀ default,
      headingTokens.get? (smallHeading.groupPath ++ [Token.defaultVariant]) = some default →
        isComposite default = true ∧ default.mode = none ∧ default.original.isObject = true := by
    rintro default hdefault
    cases hbeside.symm.trans hdefault
    exact ⟨rfl, rfl, rfl⟩
  obtain ⟨full, parts, hfull, horiginal, hvalue⟩ := variantValue_eq_original isLoaded_headings
    hfound hmem rfl rfl (by decide) rfl rfl hdefault
  have hparts : variantValue headingTokens smallHeading = .object smallHeadingParts := by cbv
  exact ⟨hbeside, hfound, full, parts, hfull, horiginal, hvalue,
    Value.object.inj (hvalue.symm.trans hparts)⟩

end DesignTokens.Figma
