import DesignTokens.Proofs.Mode.Thresholds
import DesignTokens.Proofs.Stylesheet.Imports
import DesignTokens.Proofs.Traced

/-!
# Parts of an import sheet

A sheet imports its files kind by kind. Primitives and other files are imported one after
another. Of the color files four have a layer, each of which imports those of the four
that are there, and of the dimension files those are imported that a breakpoint names.
-/

namespace DesignTokens.Stylesheet.ImportSheet

/-! ## Kinds of files -/

/-- The word for primitives stands somewhere in the path. -/
def IsPrimitive (file : String) : Prop :=
  ∃ before after, file = before ++ "primitive" ++ after

def IsBelow (directory file : String) : Prop :=
  ∃ rest, file = directory ++ "/" ++ rest

variable {file : String}

theorem color_isPrefixOf_iff : "color/".isPrefixOf file = true ↔ IsBelow "color" file :=
  Text.isPrefixOf_iff

theorem dimension_isPrefixOf_iff : "dimension/".isPrefixOf file = true ↔ IsBelow "dimension" file :=
  Text.isPrefixOf_iff

theorem IsBelow.not_dimension (hcolor : IsBelow "color" file) : ¬ IsBelow "dimension" file := by
  rintro ⟨rest, hrest⟩
  obtain ⟨more, rfl⟩ := hcolor
  simp [← String.toList_inj] at hrest

theorem kindOf_eq_primitive_iff : kindOf file = .primitive ↔ IsPrimitive file := by
  rw [IsPrimitive, ← Text.contains_iff, kindOf]
  split_ifs <;> simp_all

theorem kindOf_eq_color_iff : kindOf file = .color ↔ ¬ IsPrimitive file ∧ IsBelow "color" file := by
  rw [IsPrimitive, ← Text.contains_iff, ← color_isPrefixOf_iff, kindOf]
  split_ifs <;> simp_all

theorem kindOf_eq_dimension_iff :
    kindOf file = .dimension ↔ ¬ IsPrimitive file ∧ IsBelow "dimension" file := by
  have hexclusive : IsBelow "color" file → ¬ IsBelow "dimension" file := IsBelow.not_dimension
  rw [← color_isPrefixOf_iff] at hexclusive
  rw [IsPrimitive, ← Text.contains_iff, ← dimension_isPrefixOf_iff] at *
  rw [kindOf]
  split_ifs <;> simp_all

theorem kindOf_eq_other_iff : kindOf file = .other ↔
    ¬ IsPrimitive file ∧ ¬ IsBelow "color" file ∧ ¬ IsBelow "dimension" file := by
  rw [IsPrimitive, ← Text.contains_iff, ← color_isPrefixOf_iff, ← dimension_isPrefixOf_iff, kindOf]
  split_ifs <;> simp_all

theorem isBelow_widthFile (breakpoint : Breakpoint) : IsBelow "dimension" (widthFile breakpoint) :=
  ⟨breakpoint.name ++ ".css", by simp [widthFile, ← String.toList_inj]⟩

/-! ## Sections and notices -/

variable {files : List String} {table : List Breakpoint} {tier : String}

/-- The files of a kind in the order of their names. -/
def sortedOf (kind : Kind) (files : List String) : List String :=
  (files.mergeSort fun a b => decide (a ≤ b)).filter fun file => kindOf file = kind

theorem mem_sortedOf {kind : Kind} : file ∈ sortedOf kind files ↔ file ∈ files ∧ kindOf file = kind := by
  simp [sortedOf, List.mem_filter]

/-- Files that are imported below one another. -/
def plainSections (files : List String) : List (List Item) :=
  if files.isEmpty then [] else [files.map importOf]

def widthItems (files : List String) (table : List Breakpoint) : List (List Item) :=
  let ordered := Breakpoint.ascending table
  let present (breakpoint : Breakpoint) : Bool := files.contains (widthFile breakpoint)
  (Item.comment "Dimension tokens with breakpoint media queries" ::
    ((ordered.take 1).filter present).map fun breakpoint => importOf (widthFile breakpoint)) ::
  ((ordered.drop 1).filter present).map fun breakpoint =>
    [mediaImport ("(min-width: " ++ breakpoint.minWidth ++ ")") (widthFile breakpoint)]

/-- The files that no breakpoint names, in the order of their names. -/
def unnamed (files : List String) (table : List Breakpoint) : List String :=
  (files.eraseDups.filter fun file =>
    !((Breakpoint.ascending table).map widthFile).contains file).mergeSort fun a b => decide (a ≤ b)

theorem widthSections_eq (files : List String) (table : List Breakpoint) :
    widthSections files table =
      ⟨(unnamed files table).map .skippedStylesheet, .ok (widthItems files table)⟩ := by
  rw [widthSections, Traced.forM_note]
  simp only [bind, Traced.andThen, pure, List.append_nil]
  rfl

theorem mem_unnamed : file ∈ unnamed files table ↔ file ∈ files ∧ ∀ b ∈ table, widthFile b ≠ file := by
  simp [unnamed, Breakpoint.mem_ascending]

/-- All sections of a sheet. -/
def sheetSections (files : List String) (table : List Breakpoint) : List (List Item) :=
  plainSections (sortedOf .primitive files) ++ plainSections (sortedOf .other files) ++
    (if (sortedOf .color files).isEmpty then [] else colorSections (sortedOf .color files)) ++
    if (sortedOf .dimension files).isEmpty then [] else widthItems (sortedOf .dimension files) table

theorem sections_eq (files : List String) (table : List Breakpoint) :
    sections files table =
      ⟨(unnamed (sortedOf .dimension files) table).map .skippedStylesheet,
        .ok (sheetSections files table)⟩ := by
  have hgroups : group (files.mergeSort fun a b => decide (a ≤ b)) =
      ⟨sortedOf .primitive files, sortedOf .color files, sortedOf .dimension files,
        sortedOf .other files⟩ := rfl
  by_cases hnone : (sortedOf .dimension files).isEmpty
  · have hunnamed : unnamed (sortedOf .dimension files) table = [] := by
      simp [List.isEmpty_iff.1 hnone, unnamed]
    simp only [sections, hgroups, if_pos hnone, pure_bind]
    rw [sheetSections, if_pos hnone, hunnamed]
    rfl
  · simp only [sections, hgroups, if_neg hnone, widthSections_eq]
    rw [sheetSections, if_neg hnone]
    simp only [bind, Traced.andThen, pure, List.append_nil]
    rfl

/-! ## Color files -/

open Item (IsSelector ImportsOnly)

/-- The color files that have a layer. -/
def layered : List String :=
  ["color/light/normalContrast.css", "color/light/highContrast.css",
    "color/dark/normalContrast.css", "color/dark/highContrast.css"]

theorem colorFile?_eq_some_iff {theme contrast : String} :
    colorFile? files theme contrast = some file ↔
      file ∈ files ∧ file = "color/" ++ theme ++ "/" ++ contrast ++ ".css" := by
  rw [colorFile?]
  split_ifs with hfile
  · constructor
    · rintro ⟨⟩
      exact ⟨hfile, rfl⟩
    · rintro ⟨-, rfl⟩
      rfl
  · constructor
    · rintro ⟨⟩
    · rintro ⟨hmem, rfl⟩
      exact absurd hmem hfile

def IsLayer (files : List String) (file : String) : Prop :=
  file ∈ files ∧ file ∈ layered

theorem isLayer_of_colorFile? {theme contrast : String} (htheme : theme ∈ themes)
    (hcontrast : contrast ∈ contrasts.map Prod.fst)
    (hfile : colorFile? files theme contrast = some file) : IsLayer files file := by
  have hlayered : ∀ theme ∈ themes, ∀ contrast ∈ contrasts.map Prod.fst,
      "color/" ++ theme ++ "/" ++ contrast ++ ".css" ∈ layered := by decide
  obtain ⟨hmem, rfl⟩ := colorFile?_eq_some_iff.1 hfile
  exact ⟨hmem, hlayered theme htheme _ hcontrast⟩

variable {P : String → Prop}

theorem isSelector_attributeIs {name value : String} (hname : '\n' ∉ name.toList)
    (hvalue : '\n' ∉ value.toList) : IsSelector (attributeIs name value) := by
  constructor
  · simp [attributeIs, hname, hvalue]
  · exact ⟨'[', (name ++ "=\"" ++ value ++ "\"]").toList, by simp [attributeIs], by decide⟩

theorem isSelector_themeIs {theme : String} (htheme : theme ∈ themes) : IsSelector (themeIs theme) := by
  have hthemes : ∀ theme ∈ themes, '\n' ∉ theme.toList := by decide
  exact isSelector_attributeIs (by decide) (hthemes theme htheme)

theorem isSelector_contrastIs {value : String} (hvalue : value ∈ contrasts.map Prod.snd) :
    IsSelector (contrastIs value) := by
  have hcontrasts : ∀ value ∈ contrasts.map Prod.snd, '\n' ∉ value.toList := by decide
  exact isSelector_attributeIs (by decide) (hcontrasts value hvalue)

theorem importsOnly_fallback {selector condition : String} {base conditional : Option String}
    (hselector : IsSelector selector) (hcondition : '\n' ∉ condition.toList)
    (hbase : ∀ file, base = some file → P file)
    (hconditional : ∀ file, conditional = some file → P file) :
    ∀ item ∈ fallback selector base condition conditional, item.ImportsOnly P := by
  rw [fallback]
  split_ifs
  · simp
  · rw [List.forall_mem_singleton]
    refine .block hselector fun child hchild => ?_
    simp only [List.mem_append, List.mem_map, Option.mem_toList] at hchild
    rcases hchild with ⟨file, hfile, rfl⟩ | ⟨file, hfile, rfl⟩
    · exact .importOf (hbase file hfile)
    · exact Item.importsOnly_mediaImport hcondition (hconditional file hfile)

theorem importsOnly_preferences : ∀ item ∈ preferences files, item.ImportsOnly (IsLayer files) := by
  intro item hitem
  simp only [preferences, List.mem_append, List.mem_map, Option.mem_toList] at hitem
  rcases hitem with (⟨file, hfile, rfl⟩ | ⟨file, hfile, rfl⟩) | ⟨file, hfile, rfl⟩
  all_goals
    apply Item.importsOnly_mediaImport (by decide)
    exact isLayer_of_colorFile? (by decide) (by decide) hfile

theorem importsOnly_choices : ∀ item ∈ choices files, item.ImportsOnly (IsLayer files) := by
  intro item hitem
  simp only [choices, List.mem_flatMap, List.mem_map, Option.mem_toList, Prod.exists] at hitem
  obtain ⟨theme, htheme, contrast, value, hmem, file, hfile, rfl⟩ := hitem
  have hcontrast := List.mem_map_of_mem (f := Prod.fst) hmem
  have hvalue := List.mem_map_of_mem (f := Prod.snd) hmem
  apply ImportsOnly.block
  · exact (isSelector_themeIs htheme).append (isSelector_contrastIs hvalue).1
  · rw [List.forall_mem_singleton]
    exact .importOf (isLayer_of_colorFile? htheme hcontrast hfile)

theorem importsOnly_halfChoices : ∀ item ∈ halfChoices files, item.ImportsOnly (IsLayer files) := by
  rw [halfChoices]
  split_ifs
  · intro item hitem
    simp only [List.mem_append, List.mem_flatMap, Prod.exists] at hitem
    rcases hitem with ⟨theme, htheme, hitem⟩ | ⟨contrast, value, hmem, hitem⟩
    · have hselector : IsSelector (themeIs theme ++ ":not([data-contrast])") :=
        (isSelector_themeIs htheme).append (by decide)
      exact importsOnly_fallback hselector (by decide)
        (fun file hfile => isLayer_of_colorFile? htheme (by decide) hfile)
        (fun file hfile => isLayer_of_colorFile? htheme (by decide) hfile) item hitem
    · have hcontrast := List.mem_map_of_mem (f := Prod.fst) hmem
      have hselector : IsSelector (contrastIs value ++ ":not([data-theme])") :=
        (isSelector_contrastIs (List.mem_map_of_mem hmem)).append (by decide)
      exact importsOnly_fallback hselector (by decide)
        (fun file hfile => isLayer_of_colorFile? (by decide) hcontrast hfile)
        (fun file hfile => isLayer_of_colorFile? (by decide) hcontrast hfile) item hitem
  · simp

theorem flatten_map_singleton {α β : Type} (f : α → β) (xs : List α) :
    (xs.map fun x => [f x]).flatten = xs.map f := by
  rw [← List.flatMap_def, List.map_eq_flatMap]

/-- The items of the color files, layer by layer. -/
theorem flatten_colorSections (files : List String) : (colorSections files).flatten =
    [Item.comment "Color tokens with media queries and data attribute overrides"] ++
      (colorFile? files "light" "normalContrast").toList.map importOf ++ preferences files ++
      (if (choices files).isEmpty then [] else [Item.comment "Data attribute overrides"]) ++
      choices files ++ halfChoices files := by
  simp only [colorSections, List.flatten_append, flatten_map_singleton]
  split_ifs <;> simp

theorem importsOnly_colorSections :
    ∀ item ∈ (colorSections files).flatten, item.ImportsOnly (IsLayer files) := by
  intro item hitem
  simp only [flatten_colorSections, List.mem_append, List.mem_singleton, List.mem_map,
    Option.mem_toList] at hitem
  rcases hitem with ((((rfl | ⟨file, hfile, rfl⟩) | hitem) | hitem) | hitem) | hitem
  · exact .comment (by decide)
  · exact .importOf (isLayer_of_colorFile? (by decide) (by decide) hfile)
  · exact importsOnly_preferences item hitem
  · split_ifs at hitem
    · cases hitem
    · rw [List.mem_singleton.1 hitem]
      exact .comment (by decide)
  · exact importsOnly_choices item hitem
  · exact importsOnly_halfChoices item hitem

theorem exists_mediaImport_mem_preferences (hfile : IsLayer files file)
    (hother : file ≠ "color/light/normalContrast.css") :
    ∃ condition, mediaImport condition file ∈ preferences files := by
  obtain ⟨hmem, hlayered⟩ := hfile
  simp only [layered, List.mem_cons, List.not_mem_nil, or_false] at hlayered
  simp only [preferences, List.mem_append, List.mem_map, Option.mem_toList, colorFile?_eq_some_iff]
  rcases hlayered with hlightNormal | hlightHigh | hdarkNormal | hdarkHigh
  · exact absurd hlightNormal hother
  · exact ⟨_, .inl (.inr ⟨file, ⟨hmem, hlightHigh⟩, rfl⟩)⟩
  · exact ⟨_, .inl (.inl ⟨file, ⟨hmem, hdarkNormal⟩, rfl⟩)⟩
  · exact ⟨_, .inr ⟨file, ⟨hmem, hdarkHigh⟩, rfl⟩⟩

/-- The color files that are imported are those with a layer. -/
theorem exists_import_colorSections_iff :
    (∃ made ∈ Item.importsAll [] (colorSections files).flatten, made.file = file) ↔
      IsLayer files file := by
  constructor
  · rintro ⟨made, hmade, rfl⟩
    obtain ⟨item, hitem, hmade⟩ := Item.mem_importsAll.1 hmade
    exact (importsOnly_colorSections item hitem).of_mem_imports hmade
  · intro hfile
    simp only [Item.mem_importsAll, flatten_colorSections, List.mem_append]
    by_cases hlightNormal : file = "color/light/normalContrast.css"
    · have hfound : colorFile? files "light" "normalContrast" = some file :=
        colorFile?_eq_some_iff.2 ⟨hfile.1, hlightNormal⟩
      refine ⟨⟨[], file⟩, ⟨importOf file, .inl (.inl (.inl (.inl (.inr ?_)))), ?_⟩, rfl⟩
      · simp [hfound]
      · simp
    · obtain ⟨condition, hmem⟩ := exists_mediaImport_mem_preferences hfile hlightNormal
      refine ⟨⟨["@media " ++ condition], file⟩,
        ⟨mediaImport condition file, .inl (.inl (.inl (.inr hmem))), ?_⟩, rfl⟩
      simp

/-! ## Dimension files -/

/-- The import of a breakpoint's file, for all widths or from that of the breakpoint on. -/
def importFrom (start : Bool) (breakpoint : Breakpoint) : Import :=
  ⟨if start then [] else ["@media (min-width: " ++ breakpoint.minWidth ++ ")"],
    widthFile breakpoint⟩

theorem importsAll_widthItems (files : List String) (table : List Breakpoint) :
    Item.importsAll [] (widthItems files table).flatten =
      (((Breakpoint.ascending table).take 1).filter fun b => widthFile b ∈ files).map
          (importFrom true) ++
        (((Breakpoint.ascending table).drop 1).filter fun b => widthFile b ∈ files).map
          (importFrom false) := by
  have hmedia (b : Breakpoint) :
      (mediaImport ("(min-width: " ++ b.minWidth ++ ")") (widthFile b)).imports [] =
        [importFrom false b] := by
    simp [importFrom, ← String.toList_inj]
  have hplain (b : Breakpoint) : (importOf (widthFile b)).imports [] = [importFrom true b] := by
    simp [importFrom]
  simp only [widthItems, List.flatten_cons, Item.importsAll_append, Item.importsAll, Item.imports,
    flatten_map_singleton, Item.importsAll_map hmedia, Item.importsAll_map hplain, List.nil_append,
    List.contains_eq_mem]

theorem importsOnly_widthItems
    (htable : ∀ b ∈ table, (Breakpoint.amount? b.minWidth.toList).isSome) :
    ∀ item ∈ (widthItems files table).flatten, item.ImportsOnly (· ∈ files) := by
  intro item hitem
  simp only [widthItems, List.flatten_cons, flatten_map_singleton, List.mem_append, List.mem_cons,
    List.mem_map, List.mem_filter, List.contains_iff_mem] at hitem
  rcases hitem with (rfl | ⟨b, ⟨-, hfile⟩, rfl⟩) | ⟨b, ⟨hmem, hfile⟩, rfl⟩
  · exact .comment (by decide)
  · exact .importOf hfile
  · apply Item.importsOnly_mediaImport _ hfile
    have hwidth := Breakpoint.newline_not_mem_of_amount?
      (htable b (Breakpoint.mem_ascending.1 (List.mem_of_mem_drop hmem)))
    simp [hwidth]

/-- The dimension files that are imported are those that a breakpoint names. -/
theorem exists_import_widthItems_iff :
    (∃ made ∈ Item.importsAll [] (widthItems files table).flatten, made.file = file) ↔
      file ∈ files ∧ ∃ b ∈ table, widthFile b = file := by
  have hsplit : ∀ b, b ∈ table ↔ b ∈ (Breakpoint.ascending table).take 1 ∨
      b ∈ (Breakpoint.ascending table).drop 1 := by
    intro b
    rw [← List.mem_append, List.take_append_drop, Breakpoint.mem_ascending]
  simp only [importsAll_widthItems, List.mem_append, List.mem_map, List.mem_filter,
    decide_eq_true_eq, hsplit]
  constructor
  · rintro ⟨made, ⟨b, ⟨hmem, hfile⟩, rfl⟩ | ⟨b, ⟨hmem, hfile⟩, rfl⟩, rfl⟩
    · exact ⟨hfile, b, .inl hmem, rfl⟩
    · exact ⟨hfile, b, .inr hmem, rfl⟩
  · rintro ⟨hfile, b, hmem | hmem, rfl⟩
    · exact ⟨importFrom true b, .inl ⟨b, ⟨hmem, hfile⟩, rfl⟩, rfl⟩
    · exact ⟨importFrom false b, .inr ⟨b, ⟨hmem, hfile⟩, rfl⟩, rfl⟩

end DesignTokens.Stylesheet.ImportSheet
