import DesignTokens.Proofs.Stylesheet.Marked
import DesignTokens.Proofs.Stylesheet.TextStyles

/-!
# Where the values of a document come from

Every value in a document is the text of one token, of a light and a dark one, or of one
part of a text style. So the calls that a document makes because of references are those
in the marked values of its tokens.
-/

namespace DesignTokens.Stylesheet

namespace Marked

/-- A value for light and one for dark surroundings in one. -/
def pair (light dark : Marked) : Marked :=
  .plain "light-dark(" :: light ++ .plain ", " :: dark ++ [.plain ")"]

@[simp]
theorem text_pair (options : RenderOptions) (light dark : Marked) :
    text options (pair light dark) =
      "light-dark(" ++ text options light ++ ", " ++ text options dark ++ ")" := by
  simp [pair, String.append_assoc]

theorem mem_pair {light dark : Marked} {name : String} (hmem : .call name ∈ pair light dark) :
    .call name ∈ light ∨ .call name ∈ dark := by
  simpa [pair] using hmem

end Marked

/-- Marked text that a document of the tokens can hold as a value. -/
inductive Source (options : RenderOptions) (dictionary : Dictionary) (tokens : List Token) :
    Marked → Prop
  /-- The value of a token. -/
  | value {token : Token} {marks : Marked} (hmem : token ∈ tokens)
      (hmarks : (options.markedValue dictionary token).result = .ok marks) :
      Source options dictionary tokens marks
  /-- The values of a light and a dark token. -/
  | pair {light dark : Token} {lightMarks darkMarks : Marked} (hlight : light ∈ tokens)
      (hdark : dark ∈ tokens)
      (hlightMarks : (options.markedValue dictionary light).result = .ok lightMarks)
      (hdarkMarks : (options.markedValue dictionary dark).result = .ok darkMarks) :
      Source options dictionary tokens (Marked.pair lightMarks darkMarks)
  /-- One part of a text style, with what it takes from its default. -/
  | part {style full part : Token} {found : List (Typography.DefaultKey × Token)}
      {property : String} {marks : Marked} (hmem : style ∈ tokens)
      (hfound : Typography.defaults dictionary.tokens = .ok found)
      (hfull : Typography.withDefault found style = .ok full)
      (hpart : (property, part) ∈ Typography.partTokens full)
      (hmarks : (options.markedValue dictionary part).result = .ok marks) :
      Source options dictionary tokens marks

variable {options : RenderOptions} {dictionary : Dictionary} {tokens shown : List Token}

/-- Whatever a document calls because of a reference is named by a token. -/
theorem Source.isNamed {marks : Marked} (hsource : Source options dictionary tokens marks)
    {name : String} (hcall : .call name ∈ marks) : RenderOptions.IsNamed dictionary name := by
  cases hsource with
  | value _ hmarks => exact RenderOptions.isNamed_of_markedValue hmarks hcall
  | pair _ _ hlight hdark =>
      rcases Marked.mem_pair hcall with hcall | hcall
      · exact RenderOptions.isNamed_of_markedValue hlight hcall
      · exact RenderOptions.isNamed_of_markedValue hdark hcall
  | part _ _ _ _ hmarks => exact RenderOptions.isNamed_of_markedValue hmarks hcall

/-- The value of the declaration is the text of marked text that the tokens give. -/
def IsWritten (options : RenderOptions) (dictionary : Dictionary) (tokens : List Token)
    (declaration : Declaration) : Prop :=
  ∃ marks, Source options dictionary tokens marks ∧ declaration.value = marks.text options

theorem exists_marks_of_value {token : Token} {value : String}
    (hvalue : (options.value token dictionary).result = .ok value) :
    ∃ marks, (options.markedValue dictionary token).result = .ok marks ∧
      value = marks.text options := by
  rw [RenderOptions.value_eq_text] at hvalue
  obtain ⟨marks, hmarks, rfl⟩ := Traced.map_eq_ok.1 hvalue
  exact ⟨marks, hmarks, rfl⟩

/-- A declared token is the source of its declaration. -/
theorem isWritten_declaration {entry : String × Token} (hmem : entry.2 ∈ tokens)
    (hrenders : options.Renders dictionary entry.2) :
    IsWritten options dictionary tokens (options.declaration dictionary entry) := by
  obtain ⟨marks, hmarks, htext⟩ :=
    exists_marks_of_value (RenderOptions.value_eq_ok.2 ⟨hrenders, rfl⟩)
  exact ⟨marks, .value hmem hmarks, htext⟩

/-- Every declaration of the part is written from the tokens. -/
def Part.IsWritten (options : RenderOptions) (dictionary : Dictionary) (tokens : List Token)
    (part : Part) : Prop :=
  ∀ declaration ∈ part.root ++ Item.allDeclarations part.conditional,
    Stylesheet.IsWritten options dictionary tokens declaration

theorem isWritten_map_declaration {named : List (String × Token)}
    (hnamed : ∀ entry ∈ named, entry.2 ∈ tokens ∧ options.Renders dictionary entry.2) :
    ∀ declaration ∈ named.map (options.declaration dictionary),
      IsWritten options dictionary tokens declaration := by
  rw [List.forall_mem_map]
  intro entry hentry
  exact isWritten_declaration (hnamed entry hentry).1 (hnamed entry hentry).2

theorem isWritten_own (hrenders : ∀ token ∈ shown, options.Renders dictionary token)
    (hshown : shown ⊆ tokens) :
    ∀ declaration ∈ (shown.map fun token => (token.name, token)).map
      (options.declaration dictionary), IsWritten options dictionary tokens declaration := by
  apply isWritten_map_declaration
  rw [List.forall_mem_map]
  exact fun token htoken => ⟨hshown htoken, hrenders token htoken⟩

variable {axis : ModeAxis} {part : Part}

/-! ## Colors -/

/-- A light token and the dark one of its name are the sources of their declaration. -/
theorem isWritten_lightTone {palette : Palette} {entry : String × Token}
    (hlight : entry.2 ∈ tokens) (hdark : ∀ entry ∈ palette.dark, entry.2 ∈ tokens)
    (hrenders : palette.Renders options dictionary) (hentry : entry ∈ palette.light) :
    IsWritten options dictionary tokens
      (Tone.declaration (entry.1, palette.lightTone options dictionary entry)) := by
  rw [Palette.lightTone]
  cases hfound : Entries.get? palette.dark entry.1 with
  | none => exact isWritten_declaration hlight (hrenders.light entry hentry)
  | some dark =>
      have hpartner := Entries.mem_of_get?_eq_some hfound
      obtain ⟨lightMarks, hlightMarks, hlightText⟩ :=
        exists_marks_of_value (RenderOptions.value_eq_ok.2 ⟨hrenders.light entry hentry, rfl⟩)
      obtain ⟨darkMarks, hdarkMarks, hdarkText⟩ :=
        exists_marks_of_value (RenderOptions.value_eq_ok.2 ⟨hrenders.dark _ hpartner, rfl⟩)
      refine ⟨_, .pair hlight (hdark _ hpartner) hlightMarks hdarkMarks, ?_⟩
      rw [Marked.text_pair, ← hlightText, ← hdarkText]
      rfl

theorem isWritten_colorPart {strategy : ColorStrategy} (hshown : shown ⊆ tokens)
    (hpart : (colorPart shown dictionary options strategy axis).result = .ok part) :
    part.IsWritten options dictionary tokens := by
  obtain ⟨palette, hpalette, hrenders, rfl⟩ := colorPart_eq_ok.1 hpart
  have hcolors : colorsOf shown ⊆ tokens :=
    List.Subset.trans (List.filter_subset_self shown) hshown
  have hnamed : ∀ entry ∈ palette.own ++ palette.light ++ palette.dark,
      entry.2 ∈ tokens ∧ options.Renders dictionary entry.2 := fun entry hentry =>
    ⟨hcolors (Palette.mem_tokens_of_ofAxis hpalette hentry), hrenders.forall_mem entry hentry⟩
  rw [Part.IsWritten]
  cases strategy with
  | lightDarkFunction =>
      rw [List.forall_mem_append, List.forall_mem_append] at hnamed
      obtain ⟨⟨hown, hlight⟩, hdark⟩ := hnamed
      rw [Palette.toPart, Item.allDeclarations, List.append_nil, Palette.map_declaration_tones,
        List.forall_mem_append, List.forall_mem_append]
      refine ⟨⟨isWritten_map_declaration hown, ?_⟩, isWritten_map_declaration ?_⟩
      · rw [List.forall_mem_map]
        intro entry hentry
        exact isWritten_lightTone (hlight entry hentry).1
          (fun entry hentry => (hdark entry hentry).1) hrenders hentry
      · intro entry hentry
        exact hdark entry (List.mem_filter.1 hentry).1
  | mediaQuery =>
      rw [Palette.toPart, Palette.allDeclarations_darkItems, ← List.map_append]
      exact isWritten_map_declaration hnamed

/-! ## Dimensions -/

theorem isWritten_widthPart {table : List Breakpoint} (hshown : shown ⊆ tokens)
    (hpart : (widthPart shown dictionary options table).result = .ok part) :
    part.IsWritten options dictionary tokens := by
  obtain ⟨axis, -, hrenders, -, rfl⟩ := widthPart_eq_ok.1 hpart
  have hdimension : ∀ token ∈ dimensionsOf shown, token ∈ tokens :=
    fun token htoken => hshown (List.mem_of_mem_filter htoken)
  have hentries : ∀ mode,
      ∀ entry ∈ Mode.entriesOf axis (dimensionsOf shown) options.lead mode,
        entry.2 ∈ tokens ∧ options.Renders dictionary entry.2 := by
    intro mode entry hentry
    have hin := Mode.mem_of_mem_entriesOf hentry
    exact ⟨hdimension entry.2 hin, hrenders entry.2 hin⟩
  have hunmoded := axis.unmoded_subset (dimensionsOf shown)
  rw [Part.IsWritten, widthPartOf, List.map_append, List.forall_mem_append,
    List.forall_mem_append]
  refine ⟨⟨?_, isWritten_map_declaration (hentries axis.default)⟩, ?_⟩
  · exact isWritten_own (fun token htoken => hrenders token (hunmoded htoken))
      (fun token htoken => hdimension token (hunmoded htoken))
  · intro declaration hmem
    obtain ⟨breakpoint, -, -, entry, hentry, rfl⟩ := mem_allDeclarations_flatMap_blockOf.1 hmem
    exact isWritten_declaration (hentries _ entry hentry).1 (hentries _ entry hentry).2

/-! ## Text styles -/

theorem isWritten_of_declarations {style full : Token}
    {found : List (Typography.DefaultKey × Token)} (hstyle : style ∈ tokens)
    (hfound : Typography.defaults dictionary.tokens = .ok found)
    (hfull : Typography.withDefault found style = .ok full) {declarations : List Declaration}
    (hdeclarations : (Typography.declarations full dictionary options).result =
      .ok declarations) :
    ∀ declaration ∈ declarations, IsWritten options dictionary tokens declaration := by
  intro declaration hmem
  obtain ⟨⟨property, part⟩, hpart, hone⟩ :=
    Paired.exists_of_mem_right (Traced.mapM_eq_ok.1 hdeclarations) hmem
  obtain ⟨value, hvalue, rfl⟩ := Traced.map_eq_ok.1 hone
  obtain ⟨marks, hmarks, rfl⟩ := exists_marks_of_value hvalue
  exact ⟨marks, .part hstyle hfound hfull hpart hmarks, rfl⟩

theorem isWritten_of_isClass {token : Token} (hmem : token ∈ tokens) {item : Item}
    (hclass : IsClass options dictionary token item) :
    ∀ declaration ∈ item.declarations, IsWritten options dictionary tokens declaration := by
  obtain ⟨found, full, declarations, hfound, hfull, hdeclarations⟩ := hclass
  rw [Item.declarations_block]
  exact isWritten_of_declarations hmem hfound hfull hdeclarations

theorem isWritten_typographyItems {elements : Bool} {items : List Item} (hshown : shown ⊆ tokens)
    (hitems : (typographyItems shown dictionary options elements).result = .ok items) :
    ∀ declaration ∈ Item.allDeclarations items,
      IsWritten options dictionary tokens declaration := by
  obtain ⟨hplain, styles, rfl, hstyles, hclasses⟩ := exists_of_typographyItems hitems
  have hwritten : ∀ style ∈ styles, ∀ declaration ∈ style.2,
      IsWritten options dictionary tokens declaration := by
    intro style hstyle
    have htoken : style.1 ∈ shown.filter Typography.isComposite := by
      rw [← hstyles]
      exact List.mem_map_of_mem hstyle
    have hclass := isWritten_of_isClass (hshown (List.mem_of_mem_filter htoken))
      (hclasses style hstyle)
    rwa [classOf, Item.declarations_block] at hclass
  rw [Item.allDeclarations_append, Item.allDeclarations_append, List.forall_mem_append,
    List.forall_mem_append]
  refine ⟨⟨?_, ?_⟩, ?_⟩
  · rw [allDeclarations_plainItems]
    exact isWritten_own hplain
      (List.Subset.trans (List.filter_subset_self shown) hshown)
  · intro declaration hmem
    obtain ⟨style, hstyle, hin⟩ := exists_of_mem_elementItems hmem
    exact hwritten style hstyle declaration hin
  · intro declaration hmem
    rw [allDeclarations_classItems, List.mem_flatMap] at hmem
    obtain ⟨style, hstyle, hin⟩ := hmem
    exact hwritten style hstyle declaration hin

/-! ## All categories in one document -/

theorem Part.IsWritten.append {first second : Part}
    (hfirst : first.IsWritten options dictionary tokens)
    (hsecond : second.IsWritten options dictionary tokens) :
    (first ++ second).IsWritten options dictionary tokens := by
  intro declaration hmem
  simp only [Part.append_eq, Item.allDeclarations_append, List.mem_append] at hmem
  rcases hmem with (hmem | hmem) | hmem | hmem
  · exact hfirst declaration (List.mem_append_left _ hmem)
  · exact hsecond declaration (List.mem_append_left _ hmem)
  · exact hfirst declaration (List.mem_append_right _ hmem)
  · exact hsecond declaration (List.mem_append_right _ hmem)

/-- Every value in the combined document comes from the tokens. -/
theorem isWritten_combinedItems {assembly : Assembly} {items : List Item}
    (hitems : (assembly.combinedItems tokens dictionary).result = .ok items) :
    ∀ declaration ∈ Item.allDeclarations items,
      IsWritten assembly.options dictionary tokens declaration := by
  obtain ⟨colors, widths, styles, hrenders, hcolors, hwidths, hstyles, rfl⟩ :=
    Assembly.combinedItems_eq_ok.1 hitems
  have hplain : Part.IsWritten assembly.options dictionary tokens
      ⟨((tokens.filter Assembly.isPlainProperty).map fun token => (token.name, token)).map
        (assembly.options.declaration dictionary), []⟩ := by
    rw [Part.IsWritten, Item.allDeclarations, List.append_nil]
    exact isWritten_own hrenders (List.filter_subset_self tokens)
  rw [Item.allDeclarations_append, Part.allDeclarations_items, List.forall_mem_append]
  constructor
  · exact (hplain.append (isWritten_colorPart (List.Subset.refl _) hcolors)).append
      (isWritten_widthPart (List.Subset.refl _) hwidths)
  · exact isWritten_typographyItems (List.filter_subset_self tokens) hstyles

end DesignTokens.Stylesheet
