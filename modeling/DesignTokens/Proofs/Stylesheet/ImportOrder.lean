import DesignTokens.Proofs.Stylesheet.ImportSheets

/-!
# Imports of a tier

The sheet of a tier imports files of the tier only, in the order of the cascade, and it
does not depend on the order in which the files are listed. Of the files that are listed
it leaves out the dimension files that no breakpoint names, which it reports, and the
color files that have no layer.
-/

namespace DesignTokens.Stylesheet.ImportSheet

variable {files : List String} {table : List Breakpoint} {tier file : String}

/-! ## The text of a sheet -/

/-- The comment at the head and the blank line below it. -/
def heading (tier : String) : String :=
  "/* Auto-generated index file for " ++ tier ++ " tier CSS tokens */\n\n"

/-- What stands below the heading. -/
def body (sections : List (List Item)) : String :=
  "\n\n".intercalate (sections.map fun items => "\n".intercalate (Item.renderAll 0 items)) ++ "\n"

theorem text_eq (files : List String) (tier : String) (table : List Breakpoint) :
    text files tier table =
      ⟨(unnamed (sortedOf .dimension files) table).map .skippedStylesheet,
        .ok (heading tier ++ body (sheetSections files table))⟩ := by
  rw [text, sections_eq]
  simp only [bind, Traced.andThen, pure, List.append_nil]
  congr 2
  rw [body, ← String.append_assoc]
  congr 1

/-- The imports of a sheet, given by its items and, where names and widths fit on a line, by
the lines of its text below the heading. -/
def Makes (files : List String) (tier : String) (table : List Breakpoint) (made : List Import) :
    Prop :=
  ∃ sections, (text files tier table).result = .ok (heading tier ++ body sections) ∧
    Item.importsAll [] sections.flatten = made ∧
    ((∀ file ∈ files, Import.FitsLine file) →
      (∀ b ∈ table, (Breakpoint.amount? b.minWidth.toList).isSome) →
      Import.ofText (body sections) = made)

/-- All imports of a sheet. -/
def sheetImports (files : List String) (table : List Breakpoint) : List Import :=
  (sortedOf .primitive files).map (Import.mk []) ++ (sortedOf .other files).map (Import.mk []) ++
    Item.importsAll [] (colorSections (sortedOf .color files)).flatten ++
    Item.importsAll [] (widthItems (sortedOf .dimension files) table).flatten

theorem flatten_plainSections (files : List String) :
    (plainSections files).flatten = files.map importOf := by
  rw [plainSections]
  split_ifs with hnone
  · simp [List.isEmpty_iff.1 hnone]
  · simp

theorem importsAll_colorSections_nil : Item.importsAll [] (colorSections []).flatten = [] := by
  rw [List.eq_nil_iff_forall_not_mem]
  intro made hmade
  have hlayer := exists_import_colorSections_iff.1 ⟨made, hmade, rfl⟩
  exact List.not_mem_nil hlayer.1

theorem importsAll_widthItems_nil (table : List Breakpoint) :
    Item.importsAll [] (widthItems [] table).flatten = [] := by
  simp [importsAll_widthItems]

theorem importsAll_sheetSections (files : List String) (table : List Breakpoint) :
    Item.importsAll [] (sheetSections files table).flatten = sheetImports files table := by
  have hplain (file : String) : (importOf file).imports [] = [⟨[], file⟩] := Item.imports_importOf file
  have hskipped {sections : List (List Item)} {group : List String}
      (hnone : group = [] → Item.importsAll [] sections.flatten = []) :
      Item.importsAll [] (if group.isEmpty then [] else sections).flatten =
        Item.importsAll [] sections.flatten := by
    split_ifs with hempty
    · exact (hnone (List.isEmpty_iff.1 hempty)).symm
    · rfl
  simp only [sheetSections, List.flatten_append, Item.importsAll_append, flatten_plainSections,
    Item.importsAll_map hplain]
  rw [hskipped (by rintro h; rw [h]; exact importsAll_colorSections_nil),
    hskipped (by rintro h; rw [h]; exact importsAll_widthItems_nil table), sheetImports]

theorem importsOnly_sheetSections
    (htable : ∀ b ∈ table, (Breakpoint.amount? b.minWidth.toList).isSome) :
    ∀ item ∈ (sheetSections files table).flatten, item.ImportsOnly (· ∈ files) := by
  have hof {kind : Kind} {file : String} (hfile : file ∈ sortedOf kind files) : file ∈ files :=
    (mem_sortedOf.1 hfile).1
  have hplain {kind : Kind} {item : Item} (hitem : item ∈ (sortedOf kind files).map importOf) :
      item.ImportsOnly (· ∈ files) := by
    obtain ⟨file, hfile, rfl⟩ := List.mem_map.1 hitem
    exact .importOf (hof hfile)
  intro item hitem
  simp only [sheetSections, List.flatten_append, List.mem_append, flatten_plainSections] at hitem
  rcases hitem with ((hitem | hitem) | hitem) | hitem
  · exact hplain hitem
  · exact hplain hitem
  · split_ifs at hitem
    · cases hitem
    · exact (importsOnly_colorSections item hitem).imp fun file hfile => hof hfile.1
  · split_ifs at hitem
    · cases hitem
    · exact (importsOnly_widthItems htable item hitem).imp fun file hfile => hof hfile

theorem makes_sheetImports (files : List String) (tier : String) (table : List Breakpoint) :
    Makes files tier table (sheetImports files table) := by
  refine ⟨sheetSections files table, ?_, importsAll_sheetSections files table, ?_⟩
  · rw [text_eq]
  · intro hfiles htable
    have hitems : ∀ item ∈ (sheetSections files table).flatten, item.ImportsOnly Import.FitsLine :=
      fun item hitem => (importsOnly_sheetSections htable item hitem).imp hfiles
    rw [Import.ofText, body, ← String.append_empty (s := _ ++ "\n"), Text.lines_append_newline,
      Import.ofLines_sections hitems, importsAll_sheetSections]
    exact List.append_nil _

/-! ## Files without an import -/

theorem mem_notices_iff : .skippedStylesheet file ∈ (text files tier table).notices ↔
    file ∈ sortedOf .dimension files ∧ ∀ b ∈ table, widthFile b ≠ file := by
  simp [text_eq, mem_unnamed]

theorem exists_mem_sheetImports_iff : (∃ made ∈ sheetImports files table, made.file = file) ↔
    file ∈ sortedOf .primitive files ∨ file ∈ sortedOf .other files ∨
      IsLayer (sortedOf .color files) file ∨
      file ∈ sortedOf .dimension files ∧ ∃ b ∈ table, widthFile b = file := by
  rw [← exists_import_colorSections_iff, ← exists_import_widthItems_iff]
  simp only [sheetImports, List.mem_append, List.mem_map, or_and_right, exists_or, or_assoc]
  simp

/-- A file of a tier is imported or reported, unless it is a color file without a layer. -/
theorem imported_or_skipped_iff (files : List String) (tier : String) (table : List Breakpoint) :
    ∃ made, Makes files tier table made ∧ ∀ file ∈ files,
      ((∃ found ∈ made, found.file = file) ∨
          .skippedStylesheet file ∈ (text files tier table).notices ↔
        IsPrimitive file ∨ ¬ IsBelow "color" file ∨
          file ∈ ["color/light/normalContrast.css", "color/light/highContrast.css",
            "color/dark/normalContrast.css", "color/dark/highContrast.css"]) := by
  refine ⟨sheetImports files table, makes_sheetImports files tier table, fun file hfile => ?_⟩
  rw [exists_mem_sheetImports_iff, mem_notices_iff]
  simp only [IsLayer, mem_sortedOf, hfile, true_and]
  cases hkind : kindOf file with
  | primitive => simp [kindOf_eq_primitive_iff.1 hkind]
  | color =>
      obtain ⟨hprimitive, hbelow⟩ := kindOf_eq_color_iff.1 hkind
      simp [hprimitive, hbelow, layered]
  | dimension =>
      obtain ⟨-, hbelow⟩ := kindOf_eq_dimension_iff.1 hkind
      have hcolor : ¬ IsBelow "color" file := fun hcolor => hcolor.not_dimension hbelow
      have hnamed := em (∃ b ∈ table, widthFile b = file)
      push Not at hnamed
      simpa [hcolor] using hnamed
  | other => simp [(kindOf_eq_other_iff.1 hkind).2.1]

/-- A color file without a layer is left out without a word. -/
theorem not_imported_or_skipped_blue :
    Makes ["color/blue.css"] "sites" Breakpoint.standard [] ∧
      (text ["color/blue.css"] "sites" Breakpoint.standard).notices = [] := by
  have hkind : kindOf "color/blue.css" = .color := by
    rw [kindOf_eq_color_iff, IsPrimitive, ← Text.contains_iff]
    exact ⟨by decide, "blue.css", by decide⟩
  have hsorted (kind : Kind) : sortedOf kind ["color/blue.css"] =
      if kind = .color then ["color/blue.css"] else [] := by
    simp [sortedOf, hkind, eq_comm, List.filter_cons]
  have hcolors : Item.importsAll [] (colorSections ["color/blue.css"]).flatten = [] := by
    decide +kernel
  have himports : sheetImports ["color/blue.css"] Breakpoint.standard = [] := by
    simp [sheetImports, hsorted, hcolors, importsAll_widthItems_nil]
  constructor
  · rw [← himports]
    exact makes_sheetImports ["color/blue.css"] "sites" Breakpoint.standard
  · simp [text_eq, hsorted, unnamed]

/-! ## The order of the imports -/

/-- Names in order, each one once: those with a property. -/
def IsSorting (P : String → Prop) (names : List String) : Prop :=
  names.Pairwise (· < ·) ∧ ∀ name, name ∈ names ↔ P name

theorem isSorting_sortedOf (hfiles : files.Nodup) (kind : Kind) :
    IsSorting (fun file => file ∈ files ∧ kindOf file = kind) (sortedOf kind files) := by
  constructor
  · exact (Text.pairwise_lt_mergeSort hfiles).sublist List.filter_sublist
  · exact fun file => mem_sortedOf

/-- What a sheet imports, layer by layer. -/
structure Layers where
  primitives : List String
  others : List String
  colors : List Import
  widths : List Breakpoint

open Classical in
/-- The narrowest breakpoint of a table holds for all widths, any other one from its own on. -/
noncomputable def widthImport (table : List Breakpoint) (breakpoint : Breakpoint) : Import :=
  importFrom (breakpoint.IsNarrowest table) breakpoint

/-- The imports of the layers in the order of the cascade. -/
noncomputable def Layers.imports (layers : Layers) (table : List Breakpoint) : List Import :=
  layers.primitives.map (Import.mk []) ++ layers.others.map (Import.mk []) ++ layers.colors ++
    layers.widths.map (widthImport table)

/-- The layers hold files of a tier, each one in the layer of its kind. -/
structure Layers.Covers (layers : Layers) (files : List String) (table : List Breakpoint) :
    Prop where
  existing : ∀ made ∈ layers.imports table, made.file ∈ files
  primitives : IsSorting (fun file => file ∈ files ∧ IsPrimitive file) layers.primitives
  others : IsSorting (fun file => file ∈ files ∧ ¬ IsPrimitive file ∧ ¬ IsBelow "color" file ∧
    ¬ IsBelow "dimension" file) layers.others
  colors : ∀ made ∈ layers.colors, ¬ IsPrimitive made.file ∧ IsBelow "color" made.file
  ascending : layers.widths.Pairwise fun a b => a.threshold ≤ b.threshold
  once : (layers.widths.map widthFile).Nodup
  widths : ∀ b, b ∈ layers.widths ↔
    b ∈ table ∧ widthFile b ∈ files ∧ ¬ IsPrimitive (widthFile b)

theorem text_eq_of_perm {listed : List String} (hperm : listed.Perm files) :
    text listed tier table = text files tier table := by
  rw [text, sections, Text.mergeSort_eq_of_perm hperm]
  rfl

theorem widthImport_of_mem_take {b : Breakpoint} (hb : b ∈ (Breakpoint.ascending table).take 1) :
    widthImport table b = importFrom true b := by
  cases hsorted : Breakpoint.ascending table with
  | nil => simp [hsorted] at hb
  | cons first wider =>
      obtain rfl : b = first := by simpa [hsorted] using hb
      have hnarrowest : b.IsNarrowest table := Breakpoint.head?_ascending.1 (by rw [hsorted]; rfl)
      simp [widthImport, hnarrowest]

theorem widthImport_of_mem_drop (htable : (table.map Breakpoint.name).Nodup) {b : Breakpoint}
    (hb : b ∈ (Breakpoint.ascending table).drop 1) :
    widthImport table b = importFrom false b := by
  have hnodup : (Breakpoint.ascending table).Nodup :=
    (List.mergeSort_perm _ _).nodup_iff.2 (List.Nodup.of_map _ htable)
  cases hsorted : Breakpoint.ascending table with
  | nil => simp [hsorted] at hb
  | cons first wider =>
      have hwider : b ∈ wider := by simpa [hsorted] using hb
      have hfirst : first.IsNarrowest table := Breakpoint.head?_ascending.1 (by rw [hsorted]; rfl)
      have hnarrowest : ¬ b.IsNarrowest table := by
        intro hnarrowest
        rw [hsorted, List.nodup_cons] at hnodup
        exact hnodup.1 (hfirst.unique hnarrowest ▸ hwider)
      simp [widthImport, hnarrowest]

theorem importsAll_widthItems_eq_map (htable : (table.map Breakpoint.name).Nodup) :
    Item.importsAll [] (widthItems files table).flatten =
      ((Breakpoint.ascending table).filter fun b => widthFile b ∈ files).map
        (widthImport table) := by
  have hstart : (((Breakpoint.ascending table).take 1).filter fun b => widthFile b ∈ files).map
      (importFrom true) = (((Breakpoint.ascending table).take 1).filter fun b =>
        widthFile b ∈ files).map (widthImport table) :=
    List.map_congr_left fun b hb => (widthImport_of_mem_take (List.mem_of_mem_filter hb)).symm
  have hwider : (((Breakpoint.ascending table).drop 1).filter fun b => widthFile b ∈ files).map
      (importFrom false) = (((Breakpoint.ascending table).drop 1).filter fun b =>
        widthFile b ∈ files).map (widthImport table) :=
    List.map_congr_left fun b hb =>
      (widthImport_of_mem_drop htable (List.mem_of_mem_filter hb)).symm
  rw [importsAll_widthItems, hstart, hwider, ← List.map_append, ← List.filter_append,
    List.take_append_drop]

theorem nodup_map_widthFile (htable : (table.map Breakpoint.name).Nodup) :
    (table.map widthFile).Nodup := by
  have hsame : table.map widthFile =
      (table.map Breakpoint.name).map fun name => "dimension/" ++ name ++ ".css" := by
    simp [widthFile, Function.comp_def]
  rw [hsame]
  refine htable.map fun first second hfile => ?_
  simpa [← String.toList_inj] using hfile

/-- The layers of the sheet for a tier. -/
def layersOf (files : List String) (table : List Breakpoint) : Layers where
  primitives := sortedOf .primitive files
  others := sortedOf .other files
  colors := Item.importsAll [] (colorSections (sortedOf .color files)).flatten
  widths := (Breakpoint.ascending table).filter fun b => widthFile b ∈ sortedOf .dimension files

theorem imports_layersOf (htable : (table.map Breakpoint.name).Nodup) :
    (layersOf files table).imports table = sheetImports files table := by
  rw [sheetImports, importsAll_widthItems_eq_map htable]
  rfl

theorem covers_layersOf (hfiles : files.Nodup) (htable : (table.map Breakpoint.name).Nodup) :
    (layersOf files table).Covers files table where
  existing := by
    intro made hmade
    rw [imports_layersOf htable] at hmade
    have hfile := exists_mem_sheetImports_iff.1 ⟨made, hmade, rfl⟩
    simp only [IsLayer, mem_sortedOf] at hfile
    tauto
  primitives := by
    simp only [← kindOf_eq_primitive_iff]
    exact isSorting_sortedOf hfiles .primitive
  others := by
    simp only [← kindOf_eq_other_iff]
    exact isSorting_sortedOf hfiles .other
  colors := by
    intro made hmade
    have hlayer := exists_import_colorSections_iff.1 ⟨made, hmade, rfl⟩
    exact kindOf_eq_color_iff.1 (mem_sortedOf.1 hlayer.1).2
  ascending := (Breakpoint.pairwise_ascending table).sublist List.filter_sublist
  once := by
    have hnodup : ((Breakpoint.ascending table).map widthFile).Nodup :=
      ((List.mergeSort_perm table _).map widthFile).nodup_iff.2 (nodup_map_widthFile htable)
    exact hnodup.sublist (List.filter_sublist.map widthFile)
  widths := by
    intro b
    rw [layersOf, List.mem_filter, Breakpoint.mem_ascending, decide_eq_true_eq, mem_sortedOf,
      kindOf_eq_dimension_iff]
    simp only [isBelow_widthFile, and_true]

/-- Every import of a sheet is one of a file of the tier. They come in the order of the cascade,
and the order in which the files are listed does not matter. -/
theorem imports_in_cascade_order (tier : String) (hfiles : files.Nodup)
    (htable : (table.map Breakpoint.name).Nodup) :
    (∀ listed : List String, listed.Perm files → text listed tier table = text files tier table) ∧
      ∃ layers : Layers, layers.Covers files table ∧
        Makes files tier table (layers.imports table) := by
  refine ⟨fun listed hperm => text_eq_of_perm hperm, layersOf files table,
    covers_layersOf hfiles htable, ?_⟩
  rw [imports_layersOf htable]
  exact makes_sheetImports files tier table

/-- Each kind of file, with one breakpoint that has no file. -/
theorem imports_in_cascade_order_sites :
    let files := ["dimension/large.css", "typography.css", "color/light/normalContrast.css",
      "dimension/small.css", "color/primitive.css"]
    let table := Breakpoint.standard
    (files.Nodup ∧ (table.map Breakpoint.name).Nodup) ∧
      (∀ listed : List String, listed.Perm files →
        text listed "sites" table = text files "sites" table) ∧
      ∃ layers : Layers, layers.Covers files table ∧
        Makes files "sites" table (layers.imports table) :=
  ⟨⟨by decide, by decide⟩, imports_in_cascade_order "sites" (by decide) (by decide)⟩

end DesignTokens.Stylesheet.ImportSheet
