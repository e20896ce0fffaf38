import DesignTokens.Proofs.Stylesheet.Properties

/-!
# Text styles, written out

Among typography tokens the plain ones are declared in a block of their own, and every text
style has one class, which declares the properties of its parts and no custom one.
-/

namespace DesignTokens.Stylesheet

variable {tokens : List Token} {dictionary : Dictionary} {options : RenderOptions}
  {token : Token} {item : Item}

/-- The item is the class of a text style. It declares the parts of the style and those that
the style has from the default of its group. -/
inductive IsClass (options : RenderOptions) (dictionary : Dictionary) (token : Token) :
    Item → Prop
  | mk (found : List (Typography.DefaultKey × Token)) (full : Token)
      (declarations : List Declaration) :
      Typography.defaults dictionary.tokens = .ok found →
      Typography.withDefault found token = .ok full →
      (Typography.declarations full dictionary options).result = .ok declarations →
      IsClass options dictionary token
        (.block ("." ++ Typography.className token) declarations [])

/-- The block of the plain properties among typography tokens. -/
def plainItems (options : RenderOptions) (dictionary : Dictionary) (tokens : List Token) :
    List Item :=
  if tokens.filter Typography.isPlain = [] then []
  else [.block options.selector (((tokens.filter Typography.isPlain).map
    fun token => (token.name, token)).map (options.declaration dictionary)) []]

/-- The blocks of the elements that styles also apply to, under their heading. -/
def elementItems (elements : Bool) (styles : List (Token × List Declaration)) : List Item :=
  let blocks := styles.filterMap fun (token, declarations) =>
    (Typography.element? token).map fun element => Item.block element declarations []
  if elements ∧ blocks ≠ [] then .comment "Semantic HTML elements" :: blocks else []

/-- Classes under their heading. -/
def classItems (classes : List Item) : List Item :=
  if classes = [] then [] else .comment "Typography utility classes" :: classes

/-- The class of a text style with its declarations. -/
def classOf (style : Token × List Declaration) : Item :=
  .block ("." ++ Typography.className style.1) style.2 []

@[simp]
theorem allDeclarations_plainItems (options : RenderOptions) (dictionary : Dictionary)
    (tokens : List Token) : Item.allDeclarations (plainItems options dictionary tokens) =
      ((tokens.filter Typography.isPlain).map fun token => (token.name, token)).map
        (options.declaration dictionary) := by
  rw [plainItems]
  split
  · next hnone => simp [hnone, Item.allDeclarations]
  · simp [Item.allDeclarations]

theorem exists_of_mem_elementItems {elements : Bool} {styles : List (Token × List Declaration)}
    {declaration : Declaration}
    (hmem : declaration ∈ Item.allDeclarations (elementItems elements styles)) :
    ∃ style ∈ styles, declaration ∈ style.2 := by
  obtain ⟨item, hitem, hin⟩ := Item.mem_allDeclarations.1 hmem
  rw [elementItems] at hitem
  split at hitem
  · rcases List.mem_cons.1 hitem with rfl | hitem
    · simp [Item.declarations] at hin
    · obtain ⟨style, hstyle, helement⟩ := List.mem_filterMap.1 hitem
      obtain ⟨element, -, rfl⟩ := Option.map_eq_some_iff.1 helement
      rw [Item.declarations_block] at hin
      exact ⟨style, hstyle, hin⟩
  · cases hitem

@[simp]
theorem allDeclarations_classItems (styles : List (Token × List Declaration)) :
    Item.allDeclarations (classItems (styles.map classOf)) = styles.flatMap Prod.snd := by
  rw [classItems]
  split
  · next hnone =>
      rw [List.map_eq_nil_iff.1 hnone]
      rfl
  · simp [Item.allDeclarations, Item.declarations, Item.allDeclarations_eq_flatMap,
      List.flatMap_map, classOf]

/-- What a composite token comes to is a class of it. -/
theorem isClass_of_style {found : List (Typography.DefaultKey × Token)}
    (hfound : Typography.defaults dictionary.tokens = .ok found)
    {style : Token × List Declaration}
    (hstyle : (do
      let full ← Traced.ofExcept (Typography.withDefault found token)
      return (token, ← Typography.declarations full dictionary options)).result = .ok style) :
    style.1 = token ∧ IsClass options dictionary token (classOf style) := by
  obtain ⟨full, hfull, hstyle⟩ := Traced.bind_eq_ok.1 hstyle
  obtain ⟨declarations, hdeclarations, hstyle⟩ := Traced.bind_eq_ok.1 hstyle
  cases hstyle
  exact ⟨rfl, .mk found full declarations hfound hfull hdeclarations⟩

/-- Typography is written as plain properties and a class for every text style. -/
theorem exists_of_typographyItems {elements : Bool} {items : List Item}
    (hitems : (typographyItems tokens dictionary options elements).result = .ok items) :
    (∀ token ∈ tokens.filter Typography.isPlain, options.Renders dictionary token) ∧
      ∃ styles : List (Token × List Declaration),
        items = plainItems options dictionary tokens ++ elementItems elements styles ++
          classItems (styles.map classOf) ∧
        styles.map Prod.fst = tokens.filter Typography.isComposite ∧
        ∀ style ∈ styles, IsClass options dictionary style.1 (classOf style) := by
  obtain ⟨root, hroot, hitems⟩ := Traced.bind_eq_ok.1 hitems
  obtain ⟨hplain, rfl⟩ := RenderOptions.declareOwn_eq_ok.1 hroot
  refine ⟨hplain, ?_⟩
  simp only [List.isEmpty_iff] at hitems
  split at hitems
  · next hnone =>
      cases hitems
      refine ⟨[], ?_, ?_, ?_⟩
      · simp [plainItems, elementItems, classItems]
      · rw [hnone, List.map_nil]
      · exact List.forall_mem_nil _
  · next hsome =>
      obtain ⟨found, hfound, hitems⟩ := Traced.bind_eq_ok.1 hitems
      obtain ⟨styles, hstyles, hitems⟩ := Traced.bind_eq_ok.1 hitems
      cases hitems
      rw [Traced.mapM_eq_ok] at hstyles
      have htokens : styles.map Prod.fst = tokens.filter Typography.isComposite := by
        rw [Paired.map_eq_map hstyles fun _ _ hstyle => (isClass_of_style hfound hstyle).1,
          List.map_id']
      have hnonempty : styles.map classOf ≠ [] := by
        intro hnone
        rw [List.map_eq_nil_iff.1 hnone] at htokens
        exact hsome htokens.symm
      refine ⟨styles, ?_, htokens, ?_⟩
      · rw [classItems, if_neg hnonempty, plainItems]
        rfl
      · intro style hstyle
        obtain ⟨token, -, hrun⟩ := Paired.exists_of_mem_right hstyles hstyle
        obtain ⟨rfl, hclass⟩ := isClass_of_style hfound hrun
        exact hclass

end DesignTokens.Stylesheet
