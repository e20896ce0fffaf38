import DesignTokens.Proofs.Stylesheet.Shadows

/-!
# Objects with a reference inside

A literal color or dimension is written as a stylesheet has it. The walk that keeps references
knows no object but a shadow: a color or a dimension with a reference in one of its members is
written as its members in braces, the form of values for which there is no syntax. An alias of
the whole value is a call, so it is a reference inside that brings the braces.
-/

namespace DesignTokens.Stylesheet

/-- The object is a dimension, or a color of a supported space that can be read, and `css` is
what is written for it in a stylesheet. -/
inductive HasSyntax (entries : Object) : (css : Except Error String) → Prop
  | dimension {amount unit : Value} : (Value.object entries).isDimension = true →
      Entries.get? entries "value" = some amount → Entries.get? entries "unit" = some unit →
      HasSyntax entries (.ok (amount.numberText ++ unit.inline))
  | color {space : String} {form : ColorForm} {color : Color} :
      Entries.get? entries "colorSpace" = some (.text space) →
      Entries.get? colorForms space = some form → Color.ofObject entries = .ok color →
      HasSyntax entries (color.write form)

/-- The members of an object in braces. -/
def bracedText (texts : List (String × String)) : String :=
  "\x7b" ++ ",".intercalate (texts.map fun (key, text) => key ++ ":" ++ text) ++ "\x7d"

variable {dictionary : Dictionary} {options : RenderOptions} {token : Token}
  {authored entries : Object} {css : Except Error String}

theorem exists_components_of_ofObject {color : Color} (hcolor : Color.ofObject entries = .ok color) :
    ∃ items, Entries.get? entries "components" = some (.list items) := by
  rw [Color.ofObject] at hcolor
  cases hcomponents : Entries.get? entries "components" with
  | none => simp [hcomponents, Bind.bind, Except.bind] at hcolor
  | some value =>
      cases value with
      | list items => exact ⟨items, rfl⟩
      | _ => simp [hcomponents, Bind.bind, Except.bind] at hcolor

/-- A color or a dimension is written literally as a stylesheet has it. -/
theorem literalText_of_hasSyntax (hcss : HasSyntax entries css) (type : Option String) :
    (literalText type (.object entries)).result = css := by
  cases hcss with
  | dimension hdimension hamount hunit =>
      exact literalText_of_isDimension hdimension hamount hunit type
  | @color space form color hspace hform hcolor =>
      obtain ⟨items, hcomponents⟩ := exists_components_of_ofObject hcolor
      have hkind : (Value.object entries).isColor = true := by
        simp [Value.isColor, Value.hasMember, Value.member?, Value.object?, hspace, hcomponents]
      rw [literalText, if_pos hkind, colorText]
      simp only [hspace, hcolor, Option.getD_some, Value.text?, Option.bind_some, hform]
      rfl

namespace RenderOptions

theorem keys_of_keptEntries {texts : List (String × String)}
    (htexts : (options.keptEntries dictionary token authored entries).result = .ok texts) :
    Entries.keys texts = Entries.keys entries := by
  rw [keptEntries_eq_mapM, Traced.mapM_eq_ok] at htexts
  apply Paired.map_eq_map htexts
  intro entry written hwritten
  obtain ⟨text, -, rfl⟩ := Traced.map_eq_ok.1 hwritten
  rfl

end RenderOptions

/-- A color or a dimension has been authored as an object or as an alias. -/
theorem object_or_alias_of_replaced {original : Value} {lookup : TokenPath → Option Value}
    (hreplaced : original.Replaced lookup (.object entries)) :
    (∃ authored, original = .object authored) ∨ ∃ reference, original.alias? = some reference := by
  cases original with
  | object authored => exact .inl ⟨authored, rfl⟩
  | text s =>
      obtain ⟨reference, htext, -⟩ | ⟨-, _, -, hvalue⟩ := hreplaced
      · have halias : Reference.alias? s = some reference := Reference.alias?_eq_some_iff.2 htext
        exact .inr ⟨reference, halias⟩
      · cases hvalue
  | list items =>
      obtain ⟨_, hvalue, -⟩ := hreplaced
      cases hvalue
  | _ => cases hreplaced

/-- With references kept, a color or a dimension is a call if it is an alias, and has its text
in a stylesheet if it has no reference. If a reference stands inside, it is written as its
members in braces, unless it has the members of a shadow as well. -/
theorem value_of_hasSyntax (hloaded : Loading.IsLoaded dictionary)
    (htoken : token ∈ dictionary.tokens) (hvalue : token.value = .object entries)
    (hcss : HasSyntax entries css) (hon : options.policy = .always true) :
    (∃ reference target, token.original.alias? = some reference ∧
      dictionary.get? (Reference.path reference) = some target ∧
      (options.value token dictionary).result = .ok (options.call target.name)) ∨
    ∃ authored, token.original = .object authored ∧
      (token.original.references = [] → (options.value token dictionary).result = css) ∧
      (token.original.references ≠ [] → ∀ text,
        (options.value token dictionary).result = .ok text ↔
          ∃ texts, (options.keptEntries dictionary token authored entries).result = .ok texts ∧
            Entries.keys texts = Entries.keys entries ∧
            text = if (Value.object entries).isShadow then
                shadowOf (isInset entries)
                  (shadowParts.filterMap fun part => Entries.get? texts part)
              else bracedText texts) := by
  have hreplaced := (hloaded.replaced htoken).2
  rw [RenderOptions.value_of_policy_on hon]
  rw [hvalue] at hreplaced
  rcases object_or_alias_of_replaced hreplaced with ⟨authored, horiginal⟩ | ⟨reference, halias⟩
  · right
    rw [horiginal, hvalue]
    refine ⟨authored, rfl, fun hplain => ?_, fun hinside text => ?_⟩
    · rw [RenderOptions.kept_eq_literalText hplain]
      exact literalText_of_hasSyntax hcss token.type
    · have huses : (Value.object authored).usesReferences = true := by
        rwa [← Bool.not_eq_false, Value.usesReferences_eq_false_iff]
      rw [RenderOptions.kept_of_usesReferences huses]
      apply exists_congr
      intro texts
      apply and_congr_right
      intro htexts
      rw [and_iff_right (RenderOptions.keys_of_keptEntries htexts)]
      rfl
  · left
    obtain ⟨target, htarget, -⟩ := Dictionary.exists_target_of_alias? halias hreplaced
    exact ⟨reference, target, halias, htarget, RenderOptions.kept_of_alias? halias htarget⟩

/-! ### A width and a color with a reference inside -/

/-- A number, a width with the number as its amount and a color with it as a channel. -/
def partly : Object :=
  [("one", .object [("$value", .int 1)]),
    ("gap", .object [("$type", .text "dimension"),
      ("$value", .object [("value", .text "\x7bone\x7d"), ("unit", .text "px")])]),
    ("wine", .object [("$type", .text "color"),
      ("$value", .object [("colorSpace", .text "display-p3"),
        ("components", .list [.text "\x7bone\x7d", .int 0, .int 0])])])]

/-- A width with a given amount. -/
def widthOf (amount : Value) : Object :=
  [("value", amount), ("unit", .text "px")]

/-- A color with a given first channel. -/
def wineOf (red : Value) : Object :=
  [("colorSpace", .text "display-p3"), ("components", .list [red, .int 0, .int 0])]

def partlyGap : Token :=
  ⟨["gap"], "gap", some "dimension", .object (widthOf (.int 1)),
    .object (widthOf (.text "\x7bone\x7d")), none, none, [], none⟩

def partlyWine : Token :=
  ⟨["wine"], "wine", some "color", .object (wineOf (.int 1)),
    .object (wineOf (.text "\x7bone\x7d")), none, none, [], none⟩

def partlyTokens : Dictionary where
  tokens := [⟨["one"], "one", none, .int 1, .int 1, none, none, [], none⟩,
    partlyGap, partlyWine]
  nodup_paths := by decide

def partlyAuthored : List Authored :=
  [⟨["one"], .null, .int 1, [], .null, none⟩,
    ⟨["gap"], .text "dimension", partlyGap.original, [], .null, none⟩,
    ⟨["wine"], .text "color", partlyWine.original, [], .null, none⟩]

theorem isLoaded_partly : Loading.IsLoaded partlyTokens := by
  have hunique : (Value.object partly).UniqueKeys := by
    simp [partly, Value.UniqueKeys, Value.EntriesUnique, Value.ItemsUnique, Entries.keys]
  have hauthored : Loading.tokensOf (Tree.Keys.of true) partly = .ok partlyAuthored := rfl
  have hresolved : Resolution.resolve partlyAuthored none = .ok partlyTokens.tokens := by cbv
  exact .of_resolve hunique hauthored hresolved

theorem hasSyntax_gap : HasSyntax (widthOf (.int 1)) (.ok "1px") :=
  @HasSyntax.dimension (widthOf (.int 1)) (.int 1) (.text "px") rfl rfl rfl

theorem hasSyntax_wine : ∃ css, HasSyntax (wineOf (.int 1)) css :=
  ⟨_, .color rfl rfl rfl⟩

theorem value_of_hasSyntax_gap :
    HasSyntax (widthOf (.int 1)) (.ok "1px") ∧
      (RenderOptions.value {} partlyGap partlyTokens).result =
        .ok (bracedText [("value", "var(--one)"), ("unit", "px")]) ∧
      ∃ texts,
        (RenderOptions.keptEntries {} partlyTokens partlyGap (widthOf (.text "\x7bone\x7d"))
          (widthOf (.int 1))).result = .ok texts ∧
        Entries.keys texts = ["value", "unit"] ∧
        "\x7bvalue:var(--one),unit:px\x7d" = bracedText texts := by
  have hmem : partlyGap ∈ partlyTokens.tokens := by simp [partlyTokens]
  have htext : (RenderOptions.value {} partlyGap partlyTokens).result =
      .ok "\x7bvalue:var(--one),unit:px\x7d" := rfl
  refine ⟨hasSyntax_gap, htext, ?_⟩
  obtain ⟨reference, -, halias, -⟩ | ⟨authored, horiginal, -, hinside⟩ :=
    @value_of_hasSyntax partlyTokens {} partlyGap _ _ isLoaded_partly hmem rfl hasSyntax_gap rfl
  · cases halias
  · cases horiginal
    obtain ⟨texts, htexts, hkeys, hform⟩ := (hinside (by decide) _).1 htext
    exact ⟨texts, htexts, hkeys, hform⟩

/-- A color with a reference in a channel is written in braces. -/
theorem not_value_of_wine :
    ¬ ∀ (dictionary : Dictionary) (token : Token) (options : RenderOptions) (entries : Object)
        (css : Except Error String),
      Loading.IsLoaded dictionary → token ∈ dictionary.tokens → token.value = .object entries →
        HasSyntax entries css → options.policy = .always true →
          ∀ texts, (options.value token dictionary).result ≠ .ok (bracedText texts) := by
  intro hall
  have hmem : partlyWine ∈ partlyTokens.tokens := by simp [partlyTokens]
  obtain ⟨css, hcss⟩ := hasSyntax_wine
  have htext : (RenderOptions.value {} partlyWine partlyTokens).result =
      .ok (bracedText [("colorSpace", "display-p3"), ("components", "var(--one), 0, 0")]) := rfl
  exact hall partlyTokens partlyWine {} _ css isLoaded_partly hmem rfl hcss rfl _ htext

end DesignTokens.Stylesheet
