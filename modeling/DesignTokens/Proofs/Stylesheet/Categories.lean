import DesignTokens.Proofs.Stylesheet.Combined

/-!
# The tokens of a category

A category selects tokens by their type or by the first step of their path, and its document
looks once more at the tokens that it is given. What it does not show there is lost: a token
without a type in the group of colors or of dimensions, or one with the type of text styles
that has no parts.
-/

namespace DesignTokens.Stylesheet

variable {tokens : List Token} {dictionary : Dictionary} {options : RenderOptions}
  {items : List Item} {token : Token}

namespace Category

/-- The document of a category shows the token if it is given it. -/
def isShown (category : String) (token : Token) : Bool :=
  if category = "color" then token.type == some "color"
  else if category = "dimension" then token.type == some "dimension"
  else if category = "typography" then Typography.isPlain token || Typography.isComposite token
  else true

end Category

/-- The token has a part in the items: its value is declared, alone or as one half of a pair,
or it is a text style and has a class. -/
inductive Contributes (options : RenderOptions) (dictionary : Dictionary) (items : List Item)
    (token : Token) : Prop
  | alone (name value : String) : (options.value token dictionary).result = .ok value →
      .custom name value ∈ Item.allDeclarations items →
      Contributes options dictionary items token
  | light (dark : Token) (name lightValue darkValue : String) :
      (options.value token dictionary).result = .ok lightValue →
      (options.value dark dictionary).result = .ok darkValue →
      .custom name ("light-dark(" ++ lightValue ++ ", " ++ darkValue ++ ")") ∈
        Item.allDeclarations items →
      Contributes options dictionary items token
  | dark (light : Token) (name lightValue darkValue : String) :
      (options.value light dictionary).result = .ok lightValue →
      (options.value token dictionary).result = .ok darkValue →
      .custom name ("light-dark(" ++ lightValue ++ ", " ++ darkValue ++ ")") ∈
        Item.allDeclarations items →
      Contributes options dictionary items token
  | style (item : Item) : item ∈ items → IsClass options dictionary token item →
      Contributes options dictionary items token

namespace Assembly

variable {assembly : Assembly} {category : String}

/-- Every source of accounted declarations has a part in them. -/
theorem contributes_of_accounts {shown : List Token} {declarations : List Declaration}
    (haccounts : Accounts (assembly.Declares tokens dictionary) shown declarations)
    (hdeclarations : declarations ⊆ Item.allDeclarations items) (hmem : token ∈ shown) :
    Contributes assembly.options dictionary items token := by
  obtain ⟨sources, hsources, hdeclares⟩ := haccounts
  obtain ⟨group, hgroup, htoken⟩ := List.mem_flatten.1 (hsources.mem_iff.2 hmem)
  obtain ⟨declaration, hdeclaration, hdeclared⟩ := Paired.exists_of_mem_left hdeclares hgroup
  have hin := hdeclarations hdeclaration
  cases hdeclared with
  | alone other value _ hvalue =>
      rw [List.mem_singleton.1 htoken]
      exact .alone _ value hvalue hin
  | shared light dark lightValue darkValue _ hlight hdark =>
      rcases List.mem_pair.1 htoken with rfl | rfl
      · exact .light dark _ lightValue darkValue hlight hdark hin
      · exact .dark light _ lightValue darkValue hlight hdark hin

theorem contributes_of_own {shown : List Token}
    (hrenders : ∀ token ∈ shown, options.Renders dictionary token)
    (hdeclarations : (shown.map fun token => (token.name, token)).map
      (options.declaration dictionary) ⊆ Item.allDeclarations items) (hmem : token ∈ shown) :
    Contributes options dictionary items token := by
  have hin : options.declaration dictionary (token.name, token) ∈ Item.allDeclarations items :=
    hdeclarations (List.mem_map_of_mem (List.mem_map_of_mem hmem))
  exact .alone token.name _ (RenderOptions.value_eq_ok.2 ⟨hrenders token hmem, rfl⟩) hin

/-- Every dimension has a part in the blocks of the widths. -/
theorem contributes_of_widthPart {table : List Breakpoint} {part : Part} {selector : String}
    (hpart : (widthPart tokens dictionary options table).result = .ok part)
    (hmem : token ∈ dimensionsOf tokens) :
    Contributes options dictionary (part.items selector) token := by
  obtain ⟨axis, haxis, hrenders, -, rfl⟩ := widthPart_eq_ok.1 hpart
  have hvalue := RenderOptions.value_eq_ok.2 ⟨hrenders token hmem, rfl⟩
  exact .alone _ _ hvalue (mem_allDeclarations_widthPartOf haxis hmem)

/-- Plain properties and text styles have their parts in the items of typography. -/
theorem contributes_of_typographyItems {elements : Bool}
    (hitems : (typographyItems tokens dictionary options elements).result = .ok items)
    (hmem : token ∈ tokens)
    (hshown : (Typography.isPlain token || Typography.isComposite token) = true) :
    Contributes options dictionary items token := by
  obtain ⟨hplain, styles, rfl, htokens, hclasses⟩ := exists_of_typographyItems hitems
  rcases Bool.or_eq_true_iff.1 hshown with hkind | hkind
  · have hin : token ∈ tokens.filter Typography.isPlain := List.mem_filter.2 ⟨hmem, hkind⟩
    apply contributes_of_own hplain _ hin
    rw [Item.allDeclarations_append, Item.allDeclarations_append, allDeclarations_plainItems,
      List.append_assoc]
    exact List.subset_append_left _ _
  · have hin : token ∈ tokens.filter Typography.isComposite := List.mem_filter.2 ⟨hmem, hkind⟩
    rw [← htokens] at hin
    obtain ⟨style, hstyle, rfl⟩ := List.mem_map.1 hin
    have hclass : classOf style ∈ styles.map classOf := List.mem_map_of_mem hstyle
    refine .style (classOf style) ?_ (hclasses style hstyle)
    rw [classItems, if_neg (List.ne_nil_of_mem hclass)]
    exact List.mem_append_right _ (List.mem_cons_of_mem _ hclass)

/-- Every token that a category shows has a part in its items. -/
theorem contributes_of_categoryItems (hpair : assembly.colorAxis.IsPair)
    (hitems : (assembly.categoryItems category tokens dictionary).result = .ok items)
    (hmem : token ∈ tokens) (hshown : Category.isShown category token) :
    Contributes assembly.options dictionary items token := by
  rw [categoryItems] at hitems
  rw [Category.isShown] at hshown
  split at hitems
  · next hcolor =>
      obtain ⟨part, hpart, hitems⟩ := Traced.bind_eq_ok.1 hitems
      cases hitems
      rw [if_pos hcolor] at hshown
      apply contributes_of_accounts (accounts_colorPart hpart hpair)
      · rw [Part.allDeclarations_items]
        exact List.Subset.refl _
      · exact List.mem_filter.2 ⟨hmem, hshown⟩
  · next hcolor =>
      rw [if_neg hcolor] at hshown
      split at hitems
      · next hdimension =>
          obtain ⟨part, hpart, hitems⟩ := Traced.bind_eq_ok.1 hitems
          cases hitems
          rw [if_pos hdimension] at hshown
          exact contributes_of_widthPart hpart (List.mem_filter.2 ⟨hmem, hshown⟩)
      · next hdimension =>
          rw [if_neg hdimension] at hshown
          split at hitems
          · next htypography =>
              rw [if_pos htypography] at hshown
              exact contributes_of_typographyItems hitems hmem hshown
          · obtain ⟨declarations, hdeclared, hitems⟩ := Traced.bind_eq_ok.1 hitems
            cases hitems
            obtain ⟨hrenders, rfl⟩ := RenderOptions.declareOwn_eq_ok.1 hdeclared
            apply contributes_of_own hrenders _ hmem
            simp [Item.allDeclarations, Item.declarations]

/-- What a category does not show makes no difference to its items. -/
theorem categoryItems_filter_isShown (assembly : Assembly) (category : String)
    (tokens : List Token) (dictionary : Dictionary) :
    assembly.categoryItems category (tokens.filter (Category.isShown category)) dictionary =
      assembly.categoryItems category tokens dictionary := by
  have hshown : ∀ p : Token → Bool, (∀ token, p token → Category.isShown category token) →
      (tokens.filter (Category.isShown category)).filter p = tokens.filter p := by
    intro p hp
    rw [List.filter_filter]
    apply List.filter_congr
    intro token _
    cases hkind : p token with
    | false => rfl
    | true => rw [hp token hkind, Bool.and_self]
  rw [categoryItems, categoryItems]
  split
  · next hcolor =>
      subst hcolor
      have hcolors := hshown (fun token => token.type == some "color") fun _ hcolor => hcolor
      simp only [colorPart, hcolors]
  · next hcolor =>
      split
      · next hdimension =>
          subst hdimension
          have hdimensions := hshown (fun token => token.type == some "dimension")
            fun _ hdimension => hdimension
          simp only [widthPart, hdimensions]
      · next hdimension =>
          split
          · next htypography =>
              subst htypography
              have hplain := hshown Typography.isPlain fun _ hplain =>
                Bool.or_eq_true_iff.2 (.inl hplain)
              have hcomposites := hshown Typography.isComposite fun _ hcomposite =>
                Bool.or_eq_true_iff.2 (.inr hcomposite)
              simp only [typographyItems, hplain, hcomposites]
          · next htypography =>
              have hall : tokens.filter (Category.isShown category) = tokens := by
                simp [Category.isShown, hcolor, hdimension, htypography]
              rw [hall]

/-- The text of the items of a category. -/
def itemsText (items : List Item) : String :=
  if items.isEmpty then emptyText else documentText fileHeader items

/-- The document of a category is the text of the items of its tokens, if it has any. -/
theorem result_categoryText (assembly : Assembly) (category : String) (tokens : List Token)
    (dictionary : Dictionary) :
    (assembly.categoryText category tokens dictionary).result =
      if (Category.select category tokens).isEmpty then .ok (itemsText [])
      else itemsText <$> (assembly.categoryItems category (Category.select category tokens)
        dictionary).result := by
  rw [categoryText, Traced.result_note_bind]
  split
  · rfl
  · rw [Traced.result_bind]
    cases (assembly.categoryItems category (Category.select category tokens) dictionary).result <;>
      rfl

theorem exists_of_categoryText {text : String}
    (htext : (assembly.categoryText category tokens dictionary).result = .ok text) :
    ∃ items, text = itemsText items ∧ (Category.select category tokens ≠ [] →
      (assembly.categoryItems category (Category.select category tokens) dictionary).result =
        .ok items) := by
  rw [result_categoryText] at htext
  by_cases hnone : Category.select category tokens = []
  · rw [if_pos (List.isEmpty_iff.2 hnone)] at htext
    cases htext
    exact ⟨[], rfl, fun hsome => absurd hnone hsome⟩
  · rw [if_neg (List.isEmpty_iff.not.2 hnone)] at htext
    obtain ⟨items, hitems, rfl⟩ := Failing.map_eq_ok.1 htext
    exact ⟨items, rfl, fun _ => hitems⟩

/-- Every selected token that the document of a category shows has a part in it. The others
are lost: the document is that of the tokens that it shows. -/
theorem contributes_of_categoryText {text : String}
    (htext : (assembly.categoryText category tokens dictionary).result = .ok text)
    (hpair : assembly.colorAxis.IsPair) :
    ∃ items, text = itemsText items ∧
      (∀ token ∈ Category.select category tokens, Category.isShown category token →
        Contributes assembly.options dictionary items token) ∧
      (Category.select category tokens ≠ [] →
        (assembly.categoryItems category
          ((Category.select category tokens).filter (Category.isShown category))
            dictionary).result = .ok items) := by
  obtain ⟨items, hitemsText, hitems⟩ := exists_of_categoryText htext
  refine ⟨items, hitemsText, ?_, ?_⟩
  · intro token hmem hshown
    exact contributes_of_categoryItems hpair (hitems (List.ne_nil_of_mem hmem)) hmem hshown
  · intro hsome
    rw [categoryItems_filter_isShown]
    exact hitems hsome

theorem contributes_of_categoryText_poster :
    (({} : Assembly).categoryText "typography" poster.tokens poster).result =
      .ok (itemsText [.comment "Typography utility classes",
        .block ".title" [⟨"font-weight", "bold"⟩] []]) ∧
    ModeAxis.color.IsPair ∧ ∃ items, itemsText [.comment "Typography utility classes",
        .block ".title" [⟨"font-weight", "bold"⟩] []] = itemsText items ∧
      (∀ token ∈ Category.select "typography" poster.tokens, Category.isShown "typography" token →
        Contributes {} poster items token) ∧
      (Category.select "typography" poster.tokens ≠ [] →
        (({} : Assembly).categoryItems "typography"
          ((Category.select "typography" poster.tokens).filter (Category.isShown "typography"))
            poster).result = .ok items) := by
  have htext : (({} : Assembly).categoryText "typography" poster.tokens poster).result =
      .ok (itemsText [.comment "Typography utility classes",
        .block ".title" [⟨"font-weight", "bold"⟩] []]) := rfl
  exact ⟨htext, isPair_color, contributes_of_categoryText htext isPair_color⟩

/-! ### A text style without parts -/

/-- A token with the type of text styles whose value is a word. -/
def resetTree : Object :=
  [("typography", .object [("reset", .object [
    ("$type", .text "typography"), ("$value", .text "inherit")])])]

def reset : Token :=
  ⟨["typography", "reset"], "typography-reset", some "typography", .text "inherit",
    .text "inherit", none, none, [], none⟩

def resetTokens : Dictionary where
  tokens := [reset]
  nodup_paths := by simp

theorem dictionary_reset : Loading.dictionaryOfTree resetTree true none = .ok resetTokens := by
  have hauthored : Loading.tokensOf (Tree.Keys.of true) resetTree = .ok
      [⟨["typography", "reset"], .text "typography", .text "inherit", [], .null, none⟩] := rfl
  rw [Loading.dictionaryOfTree, hauthored]
  rfl

/-- A document that says of a selected token that there is none. -/
theorem not_contributes_reset : ∃ dictionary,
    Loading.dictionaryOfTree resetTree true none = .ok dictionary ∧
      (({} : Assembly).categoryText "typography" dictionary.tokens dictionary).result =
        .ok (documentText fileHeader [.comment "No tokens found for this category"]) ∧
      ∃ token ∈ Category.select "typography" dictionary.tokens,
        ¬ Contributes {} dictionary [.comment "No tokens found for this category"] token := by
  refine ⟨resetTokens, dictionary_reset, rfl, reset, ?_, ?_⟩
  · exact List.mem_filter.2 ⟨List.mem_cons_self, by decide⟩
  · intro hcontributes
    cases hcontributes with
    | alone _ _ _ hin => simp [Item.allDeclarations, Item.declarations] at hin
    | light _ _ _ _ _ _ hin => simp [Item.allDeclarations, Item.declarations] at hin
    | dark _ _ _ _ _ _ hin => simp [Item.allDeclarations, Item.declarations] at hin
    | style item hitem hclass =>
        rw [List.mem_singleton.1 hitem] at hclass
        cases hclass

end Assembly

end DesignTokens.Stylesheet
