import DesignTokens.Proofs.Stylesheet.Parts

/-!
# The properties of a document

Which properties a document declares, and under which name it declares each token: a
token that is bound to a mode of the axis of its part is declared under its name
without that mode, every other one under its own name.
-/

namespace DesignTokens.Stylesheet

namespace Item

mutual

/-- The declarations of an item, at every depth. -/
def declarations : Item → List Declaration
  | .block _ declarations children => declarations ++ allDeclarations children
  | _ => []
termination_by structural item => item

def allDeclarations : List Item → List Declaration
  | [] => []
  | item :: rest => item.declarations ++ allDeclarations rest
termination_by structural items => items

end

/-- The properties that items declare, at every depth. -/
def allProperties (items : List Item) : List String :=
  (allDeclarations items).map Declaration.property

theorem allDeclarations_eq_flatMap (items : List Item) :
    allDeclarations items = items.flatMap declarations := by
  induction items with
  | nil => rfl
  | cons item rest ih => rw [allDeclarations, ih, List.flatMap_cons]

theorem mem_allDeclarations {items : List Item} {declaration : Declaration} :
    declaration ∈ allDeclarations items ↔ ∃ item ∈ items, declaration ∈ item.declarations := by
  rw [allDeclarations_eq_flatMap, List.mem_flatMap]

@[simp]
theorem allDeclarations_append (first second : List Item) :
    allDeclarations (first ++ second) = allDeclarations first ++ allDeclarations second := by
  simp [allDeclarations_eq_flatMap]

@[simp]
theorem declarations_block (selector : String) (declarations : List Declaration) :
    (block selector declarations []).declarations = declarations := by
  simp [Item.declarations, allDeclarations]

@[simp]
theorem allDeclarations_media (condition selector : String) (declarations : List Declaration) :
    allDeclarations [media condition selector declarations] = declarations := by
  simp [media, allDeclarations, Item.declarations]

@[simp]
theorem allProperties_append (first second : List Item) :
    allProperties (first ++ second) = allProperties first ++ allProperties second := by
  rw [allProperties, allDeclarations_append, List.map_append]
  rfl

end Item

namespace Part

def properties (part : Part) : List String :=
  part.root.map Declaration.property ++ Item.allProperties part.conditional

theorem allDeclarations_items (part : Part) (selector : String) :
    Item.allDeclarations (part.items selector) =
      part.root ++ Item.allDeclarations part.conditional := by
  simp [items, Item.allDeclarations, Item.declarations]

theorem allProperties_items (part : Part) (selector : String) :
    Item.allProperties (part.items selector) = part.properties := by
  rw [Item.allProperties, allDeclarations_items, List.map_append]
  rfl

theorem append_eq (first second : Part) : first ++ second =
    ⟨first.root ++ second.root, first.conditional ++ second.conditional⟩ := rfl

theorem mem_properties_append {first second : Part} {property : String} :
    property ∈ (first ++ second).properties ↔
      property ∈ first.properties ∨ property ∈ second.properties := by
  simp only [append_eq, properties, List.map_append, Item.allProperties_append, List.mem_append]
  tauto

end Part

/-- The custom property of a name. -/
def custom (name : String) : String :=
  "--" ++ name

theorem custom_injective : Function.Injective custom := by
  intro first second hsame
  rw [custom, custom, ← String.toList_inj, String.toList_append, String.toList_append] at hsame
  exact String.toList_inj.1 (List.append_cancel_left hsame)

namespace RenderOptions

variable {options : RenderOptions} {dictionary : Dictionary}

theorem property_of_declare {name : String} {token : Token} {declaration : Declaration}
    (hdeclare : (options.declare dictionary name token).result = .ok declaration) :
    declaration.property = custom name := by
  obtain ⟨value, -, rfl⟩ := Traced.map_eq_ok.1 hdeclare
  rfl

/-- A block declares its tokens, be there none. -/
@[simp]
theorem allDeclarations_mediaItems (condition : String) (named : List (String × Token)) :
    Item.allDeclarations (options.mediaItems dictionary condition named) =
      named.map (options.declaration dictionary) := by
  cases named with
  | nil => rfl
  | cons entry rest => exact Item.allDeclarations_media ..

end RenderOptions

variable {tokens : List Token} {dictionary : Dictionary} {options : RenderOptions}
  {axis : ModeAxis} {part : Part}

/-! ## Colors -/

theorem Tone.property_declaration (entry : String × Tone) :
    (Tone.declaration entry).property = custom entry.1 := by
  obtain ⟨name, tone⟩ := entry
  cases tone <;> rfl

@[simp]
theorem Palette.allDeclarations_darkItems (palette : Palette) :
    Item.allDeclarations (palette.darkItems options dictionary) =
      palette.dark.map (options.declaration dictionary) := by
  rw [darkItems_eq, RenderOptions.allDeclarations_mediaItems]

/-- Either way every name of the palette is declared, if only where dark is preferred. -/
theorem Palette.mem_properties_toPart {palette : Palette} {entry : String × Token}
    (hentry : entry ∈ palette.own ++ palette.light ++ palette.dark) (strategy : ColorStrategy) :
    custom entry.1 ∈ (palette.toPart options dictionary strategy).properties := by
  cases strategy with
  | lightDarkFunction =>
      have hname : entry.1 ∈ Entries.keys (palette.tones options dictionary) :=
        mem_keys_tones.2 (List.mem_map_of_mem hentry)
      obtain ⟨tone, htone, hname⟩ := List.mem_map.1 hname
      rw [← hname, ← Tone.property_declaration tone]
      exact List.mem_append_left _ (List.mem_map_of_mem (List.mem_map_of_mem htone))
  | mediaQuery =>
      rw [toPart, Part.properties, Item.allProperties, allDeclarations_darkItems,
        ← List.map_append, ← List.map_append]
      exact List.mem_map_of_mem (List.mem_map_of_mem hentry)

/-- Every color has a declaration. -/
theorem mem_properties_colorPart {strategy : ColorStrategy}
    (hpart : (colorPart tokens dictionary options strategy axis).result = .ok part)
    (hpair : axis.IsPair) {token : Token} (hmem : token ∈ colorsOf tokens) :
    custom (axis.nameOf options.lead token) ∈ part.properties := by
  obtain ⟨palette, hpalette, -, rfl⟩ := colorPart_eq_ok.1 hpart
  exact Palette.mem_properties_toPart (Palette.mem_of_ofAxis hpalette hpair hmem) strategy

/-! ## Dimensions -/

theorem allDeclarations_blockOf {dimensions : List Token} {breakpoint : Breakpoint} :
    Item.allDeclarations (blockOf options dictionary axis dimensions breakpoint) =
      if breakpoint.name = axis.default then []
      else (Mode.entriesOf axis dimensions options.lead breakpoint.name).map
        (options.declaration dictionary) := by
  rw [blockOf_eq]
  split
  · rfl
  · exact RenderOptions.allDeclarations_mediaItems ..

theorem mem_allDeclarations_flatMap_blockOf {table : List Breakpoint} {dimensions : List Token}
    {declaration : Declaration} :
    declaration ∈ Item.allDeclarations
        (table.flatMap (blockOf options dictionary axis dimensions)) ↔
      ∃ breakpoint ∈ table, breakpoint.name ≠ axis.default ∧
        ∃ entry ∈ Mode.entriesOf axis dimensions options.lead breakpoint.name,
          options.declaration dictionary entry = declaration := by
  rw [Item.allDeclarations_eq_flatMap, List.flatMap_assoc, List.mem_flatMap]
  apply exists_congr
  intro breakpoint
  apply and_congr_right
  intro _
  rw [← Item.allDeclarations_eq_flatMap, allDeclarations_blockOf]
  split
  · next hdefault => simp [hdefault]
  · next hwider => simp [hwider]

/-- Every dimension has a declaration, in the root block or in that of its breakpoint. -/
theorem mem_allDeclarations_widthPartOf {table : List Breakpoint}
    (haxis : Breakpoint.axis table = .ok axis) {dimensions : List Token} {token : Token}
    (hmem : token ∈ dimensions) {selector : String} :
    options.declaration dictionary (axis.nameOf options.lead token, token) ∈ Item.allDeclarations
      ((widthPartOf options dictionary axis dimensions table).items selector) := by
  rw [Part.allDeclarations_items, widthPartOf, List.map_append, List.mem_append, List.mem_append]
  rcases Mode.mem_own_or_mem_entriesOf axis options.lead hmem with hown | ⟨mode, hmode, hbound⟩
  · exact .inl (.inl (List.mem_map_of_mem hown))
  by_cases hdefault : mode = axis.default
  · rw [hdefault] at hbound
    exact .inl (.inr (List.mem_map_of_mem hbound))
  · rw [Breakpoint.values_of_axis haxis] at hmode
    obtain ⟨breakpoint, hbreakpoint, rfl⟩ := List.mem_map.1 hmode
    exact .inr (mem_allDeclarations_flatMap_blockOf.2
      ⟨breakpoint, hbreakpoint, hdefault, _, hbound, rfl⟩)

/-! ## All categories in one document -/

namespace Assembly

/-- The mode that the combined document leaves out of the name of a token. -/
def boundMode? (assembly : Assembly) (token : Token) : Option String :=
  token.mode.filter fun mode =>
    (token.type == some "color" && assembly.colorAxis.values.contains mode) ||
      (token.type == some "dimension" &&
        (assembly.breakpoints.map Breakpoint.name).contains mode)

/-- Every token that is no text style is declared, under its name without the mode that it
is bound to. -/
theorem mem_allProperties_combinedItems {assembly : Assembly} {items : List Item}
    (hitems : (assembly.combinedItems tokens dictionary).result = .ok items)
    (hpair : assembly.colorAxis.IsPair) {token : Token} (hmem : token ∈ tokens)
    (hstyle : ¬ Typography.isComposite token) :
    custom (token.nameWithout (assembly.boundMode? token) assembly.options.lead) ∈
      Item.allProperties items := by
  obtain ⟨colors, widths, styles, -, hcolors, hwidths, -, rfl⟩ := combinedItems_eq_ok.1 hitems
  rw [Item.allProperties_append, List.mem_append, Part.allProperties_items,
    Part.mem_properties_append, Part.mem_properties_append]
  left
  by_cases hcolor : token.type = some "color"
  · have hname : token.nameWithout (assembly.boundMode? token) assembly.options.lead =
        assembly.colorAxis.nameOf assembly.options.lead token := by
      simp [boundMode?, ModeAxis.nameOf, hcolor]
    have hin : token ∈ colorsOf tokens := List.mem_filter.2 ⟨hmem, by simp [hcolor]⟩
    rw [hname]
    exact .inl (.inr (mem_properties_colorPart hcolors hpair hin))
  by_cases hdimension : token.type = some "dimension"
  · obtain ⟨axis, haxis, -, -, rfl⟩ := widthPart_eq_ok.1 hwidths
    have hname : token.nameWithout (assembly.boundMode? token) assembly.options.lead =
        axis.nameOf assembly.options.lead token := by
      simp [boundMode?, ModeAxis.nameOf, hdimension, Breakpoint.values_of_axis haxis,
        Breakpoint.ascending]
    have hin : token ∈ dimensionsOf tokens := List.mem_filter.2 ⟨hmem, by simp [hdimension]⟩
    right
    rw [hname, ← Part.allProperties_items _ assembly.options.selector]
    exact List.mem_map_of_mem (mem_allDeclarations_widthPartOf haxis hin)
  · have hname : token.nameWithout (assembly.boundMode? token) assembly.options.lead =
        token.name := by
      cases hmode : token.mode <;>
        simp [boundMode?, hcolor, hdimension, hmode, Option.filter, Token.nameWithout]
    have hplain : token ∈ tokens.filter isPlainProperty := by
      simp [isPlainProperty, hmem, hcolor, hdimension, hstyle]
    rw [hname]
    left
    left
    exact List.mem_append_left _
      (List.mem_map_of_mem (List.mem_map_of_mem (List.mem_map_of_mem hplain)))

end Assembly

end DesignTokens.Stylesheet
