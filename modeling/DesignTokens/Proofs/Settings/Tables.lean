import DesignTokens.Proofs.Mode.Thresholds
import DesignTokens.Proofs.Schema
import DesignTokens.Proofs.Stylesheet.TokenFaults
import DesignTokens.Settings.Reader

/-!
# Breakpoint tables that are accepted

Each breakpoint of a table is checked when the settings are read, the table as a whole is not.
One with breakpoints orders the dimensions by width. An empty one is accepted too; the
documents that need an axis then fail, whatever the tokens are.
-/

namespace DesignTokens.Settings

open Failing Stylesheet

theorem checked_eq_ok {α : Type} {model : String} {found : Schema.Checked α} {value : α} :
    checked model found = .ok value ↔ found = .valid value := by
  cases found <;> simp [checked, invalid, Schema.Checked.toExcept]

/-! ## The table that is read -/

/-- A table is read as the empty one exactly if there is nothing in it. -/
theorem readBreakpoints_eq_nil_iff {table : Data} {breakpoints : List Breakpoint}
    (hread : readBreakpoints table = .ok breakpoints) :
    breakpoints = [] ↔ table.isSet = false := by
  cases table with
  | mapping entries =>
      have hlength := (mapM_eq_ok.1 hread).length_eq
      rw [← List.length_eq_zero_iff, ← hlength, List.length_eq_zero_iff]
      simp [Data.isSet]
  | list items =>
      have hlength := (mapM_eq_ok.1 hread).length_eq
      rw [← List.length_eq_zero_iff, ← hlength, List.length_eq_zero_iff]
      simp [Data.isSet]
  | scalar value =>
      cases value with
      | text s =>
          by_cases hempty : s = ""
          · subst hempty
            cases hread
            exact iff_of_true rfl rfl
          · simp [readBreakpoints, hempty, invalidFault, invalid] at hread
      | octets bytes =>
          cases bytes with
          | nil =>
              cases hread
              exact iff_of_true rfl rfl
          | cons first rest => cases hread
      | _ => cases hread

/-- The settings name a breakpoint table in which there is nothing. -/
def HasEmptyTable (data : Data) : Prop :=
  ∃ entries css table, data = .mapping entries ∧ entriesOf (sectionOf entries "css") = .ok css ∧
    Data.field? css "breakpoints" = some table ∧ table.isSet = false

theorem hasEmptyTable_iff {entries css : List (Scalar × Data)}
    (hcss : entriesOf (sectionOf entries "css") = .ok css) :
    HasEmptyTable (.mapping entries) ↔
      ∃ table, Data.field? css "breakpoints" = some table ∧ table.isSet = false := by
  constructor
  · rintro ⟨_, found, table, ⟨⟩, hfound, htable, hempty⟩
    rw [hcss] at hfound
    cases hfound
    exact ⟨table, htable, hempty⟩
  · rintro ⟨table, htable, hempty⟩
    exact ⟨entries, css, table, rfl, hcss, htable, hempty⟩

theorem breakpoints_of_checked {buildPath selector : Schema.Checked String}
    {lead : Schema.Checked (Option String)} {references elements : Schema.Checked Bool}
    {strategy : Schema.Checked ColorStrategy} {model : String} {breakpoints : List Breakpoint}
    {css : CssSettings}
    (hcss : checked model ((fun buildPath selector lead references strategy elements =>
      CssSettings.mk buildPath selector lead references strategy breakpoints elements) <$>
        buildPath <*> selector <*> lead <*> references <*> strategy <*> elements) = .ok css) :
    css.breakpoints = breakpoints := by
  simp only [checked_eq_ok, Schema.Checked.seq_eq_valid, Schema.Checked.map_eq_valid] at hcss
  obtain ⟨_, ⟨_, hstrategy, _, -, rfl⟩, _, -, rfl⟩ := hcss
  obtain ⟨_, ⟨_, ⟨_, ⟨_, -, rfl⟩, _, -, rfl⟩, _, -, rfl⟩, _, -, rfl⟩ := hstrategy
  rfl

theorem breakpoints_of_readCss {data : Data} {css : CssSettings} (hread : readCss data = .ok css) :
    ∃ entries, entriesOf data = .ok entries ∧
      match Data.field? entries "breakpoints" with
      | some table => readBreakpoints table = .ok css.breakpoints
      | none => css.breakpoints = Breakpoint.standard := by
  obtain ⟨entries, hentries, hread⟩ := bind_eq_ok.1 hread
  refine ⟨entries, hentries, ?_⟩
  cases htable : Data.field? entries "breakpoints" with
  | some table =>
      rw [htable] at hread
      obtain ⟨breakpoints, hbreakpoints, hread⟩ := bind_eq_ok.1 hread
      obtain ⟨fields, -, hread⟩ := bind_eq_ok.1 hread
      rw [breakpoints_of_checked hread]
      exact hbreakpoints
  | none =>
      rw [htable] at hread
      obtain ⟨breakpoints, hbreakpoints, hread⟩ := bind_eq_ok.1 hread
      obtain ⟨fields, -, hread⟩ := bind_eq_ok.1 hread
      rw [breakpoints_of_checked hread]
      exact (Except.ok.inj hbreakpoints).symm

variable {word : Option String} {data : Data} {settings : Settings}

/-- Only a table in which there is nothing leaves accepted settings without breakpoints. -/
theorem breakpoints_eq_nil_iff (hread : (read word data).result = .ok settings) :
    settings.css.breakpoints = [] ↔ HasEmptyTable data := by
  obtain ⟨environment, -, hread⟩ := Traced.bind_eq_ok.1 hread
  change ofData environment data = .ok settings at hread
  cases data with
  | mapping entries =>
      obtain ⟨build, -, hread⟩ := bind_eq_ok.1 hread
      obtain ⟨css, hcss, hread⟩ := bind_eq_ok.1 hread
      obtain ⟨figma, -, hread⟩ := bind_eq_ok.1 hread
      obtain ⟨tiers, -, hread⟩ := bind_eq_ok.1 hread
      cases hread
      obtain ⟨found, hfound, htable⟩ := breakpoints_of_readCss hcss
      rw [hasEmptyTable_iff hfound]
      cases hfield : Data.field? found "breakpoints" with
      | some table =>
          rw [hfield] at htable
          simpa using readBreakpoints_eq_nil_iff htable
      | none =>
          rw [hfield] at htable
          simp [htable, Breakpoint.standard]
  | _ => cases hread

/-! ## What accepted settings are good for -/

/-- A table with breakpoints has an axis with their names by ascending width, the narrowest
one as default. -/
theorem exists_axis {table : List Breakpoint} (htable : table ≠ []) :
    ∃ axis base, Breakpoint.axis table = .ok axis ∧ (Breakpoint.ascending table).Perm table ∧
      ((Breakpoint.ascending table).Pairwise fun a b => a.threshold ≤ b.threshold) ∧
      axis.values = (Breakpoint.ascending table).map Breakpoint.name ∧
      Breakpoint.IsNarrowest table base ∧ axis.default = base.name := by
  obtain ⟨axis, haxis⟩ := Breakpoint.exists_axis_eq_ok htable
  obtain ⟨base, hbase, hdefault⟩ := Breakpoint.exists_of_axis_eq_ok haxis
  exact ⟨axis, base, haxis, List.mergeSort_perm table _, Breakpoint.pairwise_ascending table,
    Breakpoint.values_of_axis haxis, hbase, hdefault⟩

section NoBreakpoints

variable {assembly : Assembly} {tokens : List Token} {dictionary : Dictionary}

theorem axis_nil : Breakpoint.axis [] = .error (.shape .noBreakpoints) := by
  simp [Breakpoint.axis, Breakpoint.ascending]

theorem result_widthPart_nil (tokens : List Token) (dictionary : Dictionary)
    (options : RenderOptions) :
    (widthPart tokens dictionary options []).result = .error (.shape .noBreakpoints) := by
  rw [widthPart, axis_nil]
  rfl

variable (htable : assembly.breakpoints = [])

include htable

/-- Without breakpoints no dimensions can be written. -/
theorem categoryText_of_breakpoints_nil (hsome : Category.select "dimension" tokens ≠ []) :
    (assembly.categoryText "dimension" tokens dictionary).result =
      .error (.shape .noBreakpoints) := by
  have hitems : (assembly.categoryItems "dimension" (Category.select "dimension" tokens)
      dictionary).result = .error (.shape .noBreakpoints) := by
    rw [Assembly.categoryItems, if_neg (by decide), if_pos rfl, Traced.result_bind, htable,
      result_widthPart_nil]
    rfl
  rw [Assembly.result_categoryText, if_neg (List.isEmpty_iff.not.2 hsome), hitems]
  rfl

/-- Nor can all categories together. -/
theorem combinedText_ne_ok_of_breakpoints_nil (text : String) :
    (assembly.combinedText tokens dictionary).result ≠ .ok text := by
  intro htext
  obtain ⟨items, hitems, -⟩ := Traced.map_eq_ok.1 htext
  obtain ⟨others, -, hitems⟩ := Traced.bind_eq_ok.1 hitems
  obtain ⟨colors, -, hitems⟩ := Traced.bind_eq_ok.1 hitems
  obtain ⟨widths, hrun, -⟩ := Traced.bind_eq_ok.1 hitems
  rw [htable, result_widthPart_nil] at hrun
  cases hrun

end NoBreakpoints

/-- Accepted settings whose table is not empty order the widths, and their documents fail over
tokens only. With an empty table there is no order, and neither the dimensions nor all
categories together can be written. -/
theorem outcome_of_read (hread : (read word data).result = .ok settings) :
    (¬ HasEmptyTable data →
      (∃ axis base, Breakpoint.axis settings.css.breakpoints = .ok axis ∧
        (Breakpoint.ascending settings.css.breakpoints).Perm settings.css.breakpoints ∧
        ((Breakpoint.ascending settings.css.breakpoints).Pairwise fun a b =>
          a.threshold ≤ b.threshold) ∧
        axis.values = (Breakpoint.ascending settings.css.breakpoints).map Breakpoint.name ∧
        Breakpoint.IsNarrowest settings.css.breakpoints base ∧ axis.default = base.name) ∧
      ∀ tokens dictionary error,
        (settings.assembly.categoryText "dimension" tokens dictionary).result = .error error ∨
          (settings.assembly.combinedText tokens dictionary).result = .error error →
        ConcernsTokens error) ∧
    (HasEmptyTable data →
      Breakpoint.axis settings.css.breakpoints = .error (.shape .noBreakpoints) ∧
      ∀ tokens dictionary,
        (Category.select "dimension" tokens ≠ [] →
          (settings.assembly.categoryText "dimension" tokens dictionary).result =
            .error (.shape .noBreakpoints)) ∧
        ∀ text, (settings.assembly.combinedText tokens dictionary).result ≠ .ok text) := by
  rw [← breakpoints_eq_nil_iff hread]
  constructor
  · intro htable
    have haxis := exists_axis htable
    refine ⟨haxis, ?_⟩
    obtain ⟨axis, base, haxis, -⟩ := haxis
    have hsecond : settings.assembly.colorAxis.second? = some "dark" := rfl
    rintro tokens dictionary error (herror | herror)
    · exact Assembly.failsOnly_categoryText rfl hsecond haxis "dimension" error herror
    · exact Assembly.failsOnly_combinedText rfl hsecond haxis error herror
  · intro htable
    refine ⟨by rw [htable, axis_nil], fun tokens dictionary =>
      ⟨categoryText_of_breakpoints_nil htable, combinedText_ne_ok_of_breakpoints_nil htable⟩⟩

/-- Data that give a breakpoint table and nothing else. -/
def tableData (table : Data) : Data :=
  .mapping [(.text "css", .mapping [(.text "breakpoints", table)])]

/-- The standard settings with another breakpoint table. -/
def tableSettings (breakpoints : List Breakpoint) : Settings where
  build := { logLevel := .verbose }
  css := { breakpoints }
  figma := {}
  tiers := standardTiers
  environment := .development

theorem read_tableData {table : Data} {breakpoints : List Breakpoint}
    (htable : readBreakpoints table = .ok breakpoints) :
    (read none (tableData table)).result = .ok (tableSettings breakpoints) := by
  have hcss : readCss (.mapping [(.text "breakpoints", table)]) =
      .ok (tableSettings breakpoints).css := by
    have hentries : entriesOf (.mapping [(.text "breakpoints", table)]) =
        .ok [(.text "breakpoints", table)] := rfl
    rw [readCss, hentries]
    change (readBreakpoints table >>= _) = _
    rw [htable]
    rfl
  have henvironment : (Environment.ofWord none).result = .ok .development := rfl
  rw [read, Traced.result_bind, henvironment]
  change ofData .development (tableData table) = _
  rw [tableData, ofData]
  change (readCss (.mapping [(.text "breakpoints", table)]) >>= _) = _
  rw [hcss]
  rfl

/-- Two widths, the wider one first and the other one without its unit. -/
def twoWidths : Data :=
  .mapping [(.text "wide", .scalar (.text "900px")), (.text "narrow", .scalar (.text " 300 "))]

def twoBreakpoints : List Breakpoint :=
  [⟨"wide", "900px"⟩, ⟨"narrow", "300px"⟩]

theorem readBreakpoints_twoWidths : readBreakpoints twoWidths = .ok twoBreakpoints := by
  have hwide : readBreakpoint
      [("name", .scalar (.text "wide")), ("min_width", .scalar (.text "900px"))] =
        .ok ⟨"wide", "900px"⟩ := rfl
  have hnarrow : readBreakpoint
      [("name", .scalar (.text "narrow")), ("min_width", .scalar (.text " 300 "))] =
        .ok ⟨"narrow", "300px"⟩ := rfl
  exact mapM_eq_ok.2 (.cons hwide (.cons hnarrow .nil))

theorem outcome_of_read_twoWidths :
    (read none (tableData twoWidths)).result = .ok (tableSettings twoBreakpoints) ∧
      ¬ HasEmptyTable (tableData twoWidths) ∧
      (∃ axis base, Breakpoint.axis twoBreakpoints = .ok axis ∧
        Breakpoint.IsNarrowest twoBreakpoints base ∧ axis.default = base.name) ∧
      ∀ tokens dictionary error,
        ((tableSettings twoBreakpoints).assembly.categoryText "dimension" tokens
            dictionary).result = .error error ∨
          ((tableSettings twoBreakpoints).assembly.combinedText tokens
            dictionary).result = .error error →
        ConcernsTokens error := by
  have hread := read_tableData readBreakpoints_twoWidths
  have hempty : ¬ HasEmptyTable (tableData twoWidths) := by
    rw [← breakpoints_eq_nil_iff hread]
    decide
  obtain ⟨⟨axis, base, haxis, -, -, -, hbase, hdefault⟩, herrors⟩ :=
    (outcome_of_read hread).1 hempty
  exact ⟨hread, hempty, ⟨axis, base, haxis, hbase, hdefault⟩, herrors⟩

/-- A table without breakpoints is accepted and has no axis. -/
theorem not_axis_of_emptyTable : ¬ ∀ (word : Option String) (data : Data) (settings : Settings),
    (read word data).result = .ok settings →
      ∃ axis, Breakpoint.axis settings.css.breakpoints = .ok axis := by
  intro hall
  have htable : readBreakpoints (.mapping []) = .ok [] := rfl
  obtain ⟨axis, haxis⟩ := hall none _ _ (read_tableData htable)
  simp [tableSettings, axis_nil] at haxis

end DesignTokens.Settings
