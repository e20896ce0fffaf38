import DesignTokens.Files.Loading
import DesignTokens.Proofs.Stylesheet.Written

/-!
# Calls and declarations of the combined document

A reference is written as a call of the name of the token it names, and a token is
declared under its name without the mode that it is bound to. The two agree for every
token but the text styles, which are classes and not properties, and the tokens whose
mode is a step of their path: these are declared under the shorter name alone.
-/

namespace DesignTokens.Stylesheet

/-- The call of a property in the standard form. -/
theorem call_eq (name : String) : ({} : RenderOptions).call name = "var(--" ++ name ++ ")" := by
  rw [← String.toList_inj]
  simp [RenderOptions.call, RenderOptions.placeholder, Text.replaceAll, Text.replaceAll.go]

theorem isPair_color : ModeAxis.color.IsPair := by
  simp [ModeAxis.IsPair, ModeAxis.color, ModeAxis.second?]

variable {dictionary : Dictionary} {items : List Item}

/-- The token is declared in the combined document under its name without the mode that it
is bound to, which is its own name unless the mode is a step of its path. -/
theorem declared_of_mem
    (hitems : (({} : Assembly).combinedItems dictionary.tokens dictionary).result = .ok items)
    {target : Token} (hmem : target ∈ dictionary.tokens) :
    custom target.name ∈ Item.allProperties items ∨ Typography.isComposite target ∨
      ∃ mode ∈ target.path, ({} : Assembly).boundMode? target = some mode ∧
        custom (Name.ofPath (target.path.erase mode) none) ∈ Item.allProperties items := by
  by_cases hstyle : Typography.isComposite target
  · exact .inr (.inl hstyle)
  have hdeclared := Assembly.mem_allProperties_combinedItems hitems isPair_color hmem hstyle
  cases hbound : ({} : Assembly).boundMode? target with
  | none =>
      rw [hbound] at hdeclared
      exact .inl hdeclared
  | some mode =>
      rw [hbound, Token.nameWithout] at hdeclared
      by_cases hstep : mode ∈ target.path
      · rw [if_pos hstep] at hdeclared
        exact .inr (.inr ⟨mode, hstep, rfl, hdeclared⟩)
      · rw [if_neg hstep] at hdeclared
        exact .inl hdeclared

/-- Every value of the combined document comes from the tokens of the dictionary, and
whatever such a value calls because of a reference is one of these tokens. The document
declares it under the called name unless it is a text style or its mode is a step of its
path; in the last case it declares the name without that step. -/
theorem declared_of_call
    (hitems : (({} : Assembly).combinedItems dictionary.tokens dictionary).result = .ok items) :
    (∀ declaration ∈ Item.allDeclarations items,
      IsWritten {} dictionary dictionary.tokens declaration) ∧
    ∀ marks, Source {} dictionary dictionary.tokens marks → ∀ name, .call name ∈ marks →
      ∃ target ∈ dictionary.tokens, target.name = name ∧
        (custom name ∈ Item.allProperties items ∨ Typography.isComposite target ∨
          ∃ mode ∈ target.path, ({} : Assembly).boundMode? target = some mode ∧
            custom (Name.ofPath (target.path.erase mode) none) ∈ Item.allProperties items) := by
  constructor
  · exact isWritten_combinedItems hitems
  · intro marks hsource name hcall
    obtain ⟨target, hmem, rfl⟩ := hsource.isNamed hcall
    exact ⟨target, hmem, rfl, declared_of_mem hitems hmem⟩

/-! ## A reference to a token of one mode -/

/-- A color that holds where light is preferred, and one that refers to it. -/
def lightSurface : Object :=
  [("color", .object [
    ("$type", .text "color"),
    ("light", .object [("surface", .object [
      ("$value", .text "#fff"), ("$extensions", .object [("mode", .text "light")])])]),
    ("ref", .object [("$value", .text "\x7bcolor.light.surface\x7d")])])]

/-- The token that refers to the color of one mode. -/
def surfaceAlias : Token :=
  ⟨["color", "ref"], "color-ref", some "color", .text "#fff",
    .text "\x7bcolor.light.surface\x7d", none, none, [], none⟩

def lightSurfaceTokens : Dictionary where
  tokens :=
    [⟨["color", "light", "surface"], "color-light-surface", some "color", .text "#fff",
        .text "#fff", some "light", none, [("mode", .text "light")], none⟩, surfaceAlias]
  nodup_paths := by decide

theorem dictionary_lightSurface :
    Loading.dictionaryOfTree lightSurface true none = .ok lightSurfaceTokens := by
  have hauthored : Loading.tokensOf (Tree.Keys.of true) lightSurface = .ok
      [⟨["color", "light", "surface"], .text "color", .text "#fff",
          [(.text "mode", .text "light")], .null, none⟩,
        ⟨["color", "ref"], .text "color", .text "\x7bcolor.light.surface\x7d", [], .null,
          none⟩] := rfl
  rw [Loading.dictionaryOfTree, hauthored]
  rfl

def lightSurfaceItems : List Item :=
  [.block ":root" [⟨"--color-ref", "var(--color-light-surface)"⟩, ⟨"--color-surface", "#fff"⟩] []]

theorem items_lightSurface :
    (({} : Assembly).combinedItems lightSurfaceTokens.tokens lightSurfaceTokens).result =
      .ok lightSurfaceItems := by
  have hwidths : (widthPart lightSurfaceTokens.tokens lightSurfaceTokens {}
      Breakpoint.standard).result = .ok ⟨[], []⟩ :=
    result_widthPart_of_forall_ne (by decide) (by decide)
  refine Traced.bind_eq_ok.2 ⟨[], rfl, ?_⟩
  refine Traced.bind_eq_ok.2 ⟨⟨[⟨"--color-ref", "var(--color-light-surface)"⟩,
    ⟨"--color-surface", "#fff"⟩], []⟩, rfl, ?_⟩
  exact Traced.bind_eq_ok.2 ⟨_, hwidths, rfl⟩

theorem marks_surfaceAlias :
    (RenderOptions.markedValue {} lightSurfaceTokens surfaceAlias).result =
      .ok [.call "color-light-surface"] := rfl

theorem declared_of_call_lightSurface :
    (({} : Assembly).combinedItems lightSurfaceTokens.tokens lightSurfaceTokens).result =
      .ok lightSurfaceItems ∧
    ∃ target ∈ lightSurfaceTokens.tokens, target.name = "color-light-surface" ∧
      (custom "color-light-surface" ∈ Item.allProperties lightSurfaceItems ∨
        Typography.isComposite target ∨
        ∃ mode ∈ target.path, ({} : Assembly).boundMode? target = some mode ∧
          custom (Name.ofPath (target.path.erase mode) none) ∈
            Item.allProperties lightSurfaceItems) :=
  have hmem : surfaceAlias ∈ lightSurfaceTokens.tokens := by simp [lightSurfaceTokens]
  ⟨items_lightSurface,
    (declared_of_call items_lightSurface).2 _ (.value hmem marks_surfaceAlias) _ (by simp)⟩

/-- A document that calls a property and does not declare it. -/
theorem not_declared_lightSurface : ∃ dictionary items,
    Loading.dictionaryOfTree lightSurface true none = .ok dictionary ∧
      (({} : Assembly).combinedItems dictionary.tokens dictionary).result = .ok items ∧
      ∃ token ∈ dictionary.tokens, ∃ marks,
        (RenderOptions.markedValue {} dictionary token).result = .ok marks ∧
        .call "color-light-surface" ∈ marks ∧
        ⟨custom token.name, marks.text {}⟩ ∈ Item.allDeclarations items ∧
        custom "color-light-surface" ∉ Item.allProperties items := by
  refine ⟨_, _, dictionary_lightSurface, items_lightSurface, surfaceAlias, ?_, _,
    marks_surfaceAlias, by simp, ?_, by decide⟩
  · simp [lightSurfaceTokens]
  · simp [lightSurfaceItems, Item.allDeclarations, Item.declarations, call_eq, custom,
      surfaceAlias]

end DesignTokens.Stylesheet
