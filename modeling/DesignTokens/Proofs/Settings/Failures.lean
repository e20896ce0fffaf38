import DesignTokens.Proofs.Files.Writing
import DesignTokens.Proofs.Traced
import DesignTokens.Settings.Loading

/-!
# Settings that cannot be read

What is wrong with settings is reported as a problem of the settings, whichever section
it stands in. Some faults get out as they are: text that is not UTF-8, a scalar that does
not have the form of its tag, a width that no double can hold, and tiers that are no
mapping.
-/

namespace DesignTokens

/-- The error says that the settings cannot be used. -/
def Error.ConcernsSettings : Error → Prop
  | .problem what none => what.concernsSettings = true
  | _ => False

namespace Settings

open Failing (FailsOnly)

variable {α β : Type} {error : Error}

/-- The run fails with an error that does not concern the settings. -/
def Escapes (x : Except Error α) (error : Error) : Prop :=
  x = .error error ∧ ¬ error.ConcernsSettings

theorem escapes_bind {x : Except Error α} {f : α → Except Error β} :
    Escapes (x >>= f) error ↔ Escapes x error ∨ ∃ a, x = .ok a ∧ Escapes (f a) error := by
  cases x <;> simp [Escapes, bind, Except.bind]

theorem not_escapes {x : Except Error α} (hx : FailsOnly Error.ConcernsSettings x) :
    ¬ Escapes x error :=
  fun hescapes => hescapes.2 (hx error hescapes.1)

theorem escapes_error_iff {failure : Error} :
    Escapes (.error failure : Except Error α) error ↔
      error = failure ∧ ¬ failure.ConcernsSettings := by
  constructor
  · rintro ⟨⟨⟩, hescapes⟩
    exact ⟨rfl, hescapes⟩
  · rintro ⟨rfl, hescapes⟩
    exact ⟨rfl, hescapes⟩

/-- The first step that escapes stands behind steps that succeed. -/
theorem escapes_mapM {f : α → Except Error β} {xs : List α} :
    Escapes (xs.mapM f) error ↔ ∃ before x after, xs = before ++ x :: after ∧
      (∀ other ∈ before, ∃ y, f other = .ok y) ∧ Escapes (f x) error := by
  induction xs with
  | nil => simp [Escapes, pure, Except.pure]
  | cons x xs ih =>
      rw [List.mapM_cons, escapes_bind]
      constructor
      · rintro (hx | ⟨y, hy, hrest⟩)
        · exact ⟨[], x, xs, rfl, by simp, hx⟩
        · rw [escapes_bind] at hrest
          obtain hrest | ⟨ys, -, hpure⟩ := hrest
          · obtain ⟨before, z, after, rfl, hbefore, hz⟩ := ih.1 hrest
            exact ⟨x :: before, z, after, rfl, List.forall_mem_cons.2 ⟨⟨y, hy⟩, hbefore⟩, hz⟩
          · exact absurd hpure (not_escapes (.of_ok _))
      · rintro ⟨before, z, after, hsplit, hbefore, hz⟩
        rcases List.cons_eq_append_iff.1 hsplit with ⟨rfl, hsame⟩ | ⟨others, rfl, rfl⟩
        · obtain ⟨rfl, rfl⟩ := List.cons.inj hsame
          exact .inl hz
        · rw [List.forall_mem_cons] at hbefore
          obtain ⟨⟨y, hy⟩, hbefore⟩ := hbefore
          exact .inr ⟨y, hy, escapes_bind.2 (.inl (ih.2 ⟨others, z, after, rfl, hbefore, hz⟩))⟩

/-! ## Sections whose faults are all reported -/

theorem failsOnly_invalid (cause : SettingsCause) :
    FailsOnly Error.ConcernsSettings (invalid cause : Except Error α) :=
  .of_error rfl

theorem failsOnly_checked (model : String) (found : Schema.Checked α) :
    FailsOnly Error.ConcernsSettings (checked model found) := by
  rw [checked]
  split
  · exact .of_ok _
  · exact failsOnly_invalid _

theorem failsOnly_pairOf (data : Data) : FailsOnly Error.ConcernsSettings (pairOf data) := by
  unfold pairOf
  split <;> first | exact .of_ok _ | exact failsOnly_invalid _ | skip
  split
  · exact .of_ok _
  · exact failsOnly_invalid _

theorem failsOnly_entriesOf (data : Data) : FailsOnly Error.ConcernsSettings (entriesOf data) := by
  rw [entriesOf.eq_def]
  split_ifs
  · split
    · exact .of_ok _
    · exact (FailsOnly.mapM fun item _ => failsOnly_pairOf item).map _
    · exact failsOnly_invalid _
    · exact failsOnly_invalid _
  · exact .of_ok _

theorem failsOnly_fieldsOf (entries : List (Scalar × Data)) :
    FailsOnly Error.ConcernsSettings (fieldsOf entries) := by
  apply FailsOnly.mapM
  rintro ⟨key, value⟩ -
  dsimp only
  split
  · exact .of_ok _
  · exact failsOnly_invalid _

theorem failsOnly_mappingFields (data : Data) :
    FailsOnly Error.ConcernsSettings (mappingFields data) := by
  rw [mappingFields.eq_def]
  split
  · exact failsOnly_fieldsOf _
  · exact failsOnly_invalid _

theorem failsOnly_readBuild (environment : Environment) (data : Data) :
    FailsOnly Error.ConcernsSettings (readBuild environment data) :=
  (failsOnly_entriesOf data).bind fun entries _ =>
    (failsOnly_fieldsOf entries).bind fun _ _ => failsOnly_checked _ _

theorem failsOnly_readFigma (data : Data) : FailsOnly Error.ConcernsSettings (readFigma data) := by
  have hfields : FailsOnly Error.ConcernsSettings
      (if data.isSet then mappingFields data else pure []) := by
    split_ifs
    · exact failsOnly_mappingFields data
    · exact .of_ok _
  rw [readFigma]
  split_ifs at hfields ⊢
  · exact hfields.bind fun _ _ => failsOnly_checked _ _
  · exact hfields.bind fun _ _ => failsOnly_checked _ _

theorem failsOnly_readTier (key : Scalar) (data : Data) :
    FailsOnly Error.ConcernsSettings (readTier key data) :=
  (failsOnly_entriesOf data).bind fun _ _ =>
    (failsOnly_fieldsOf _).bind fun _ _ => failsOnly_checked _ _

/-! ## Tiers -/

/-- Tiers that are set, but not as a mapping. -/
def HasOddTiers (data : Data) : Prop :=
  data.isSet = true ∧ ∀ entries, data ≠ .mapping entries

theorem failsOnly_readTiers (entries : List (Scalar × Data)) :
    FailsOnly Error.ConcernsSettings (readTiers (.mapping entries)) := by
  rw [readTiers.eq_def]
  split_ifs
  · apply FailsOnly.bind
    · apply FailsOnly.mapM
      rintro ⟨key, tier⟩ -
      exact (failsOnly_readTier key tier).bind fun _ _ => .of_ok _
    · intro tiers _
      exact (failsOnly_checked _ _).bind fun _ _ => .of_ok _
  · exact .of_ok _

theorem escapes_readTiers {data : Data} :
    Escapes (readTiers data) error ↔ error = .shape .noMembers ∧ HasOddTiers data := by
  by_cases hodd : HasOddTiers data
  · have herror : readTiers data = .error (.shape .noMembers) := by
      rw [readTiers.eq_def, if_pos hodd.1]
      split
      · next entries => exact absurd rfl (hodd.2 entries)
      · rfl
    rw [herror, escapes_error_iff]
    simp [hodd, Error.ConcernsSettings]
  · have hreported : FailsOnly Error.ConcernsSettings (readTiers data) := by
      by_cases hset : data.isSet = true
      · simp only [HasOddTiers, hset, true_and, not_forall, not_not] at hodd
        obtain ⟨entries, rfl⟩ := hodd
        exact failsOnly_readTiers entries
      · rw [readTiers.eq_def, if_neg hset]
        exact .of_ok _
    simp [hodd, not_escapes hreported]

/-! ## Widths -/

/-- The width of a breakpoint is a number that no double can hold. -/
def HasOversizedWidth (fields : Schema.Fields) : Prop :=
  ∃ n, Schema.field? fields "min_width" = some (.scalar (.int n)) ∧ Decimal.floatOfInt? n = none

theorem withUnit_eq_error {data : Data} {fault : ShapeFault} :
    Breakpoint.withUnit data = .error fault ↔
      fault = .widthTooLarge ∧ ∃ n, data = .scalar (.int n) ∧ Decimal.floatOfInt? n = none := by
  unfold Breakpoint.withUnit
  split
  · next n => cases hfloat : Decimal.floatOfInt? n <;> simp [hfloat, eq_comm]
  · simp
  · split_ifs <;> simp
  · next hint _ _ => simpa using fun _ n hn => absurd hn (hint n)

theorem exists_report_of_ofFields {fields : Schema.Fields} (hwidth : ¬ HasOversizedWidth fields)
    (hfails : Breakpoint.ofFields fields = .error error) : ∃ report, error = .report report := by
  have hunits : ∃ width, ((Schema.field? fields "min_width").mapM Breakpoint.withUnit).mapError
      Error.shape = .ok width := by
    cases hfield : Schema.field? fields "min_width" with
    | none => exact ⟨none, rfl⟩
    | some data =>
        cases hunit : Breakpoint.withUnit data with
        | ok width => exact ⟨some width, by simp [hunit]; rfl⟩
        | error fault =>
            obtain ⟨-, n, rfl, hfloat⟩ := withUnit_eq_error.1 hunit
            exact absurd ⟨n, hfield, hfloat⟩ hwidth
  obtain ⟨width, hunits⟩ := hunits
  rw [Breakpoint.ofFields, hunits] at hfails
  obtain ⟨report, -, rfl⟩ := Failing.mapError_eq_error.1 hfails
  exact ⟨report, rfl⟩

theorem escapes_readBreakpoint {fields : Schema.Fields} :
    Escapes (readBreakpoint fields) error ↔
      error = .shape .widthTooLarge ∧ HasOversizedWidth fields := by
  by_cases hwidth : HasOversizedWidth fields
  · have herror : readBreakpoint fields = .error (.shape .widthTooLarge) := by
      obtain ⟨n, hfield, hfloat⟩ := hwidth
      have hunit : Breakpoint.withUnit (.scalar (.int n)) = .error .widthTooLarge :=
        withUnit_eq_error.2 ⟨rfl, n, rfl, hfloat⟩
      have hfails : Breakpoint.ofFields fields = .error (.shape .widthTooLarge) := by
        rw [Breakpoint.ofFields, hfield, Option.mapM_some, hunit]
        rfl
      rw [readBreakpoint, hfails]
    rw [herror, escapes_error_iff]
    simp [hwidth, Error.ConcernsSettings]
  · have hreported : FailsOnly Error.ConcernsSettings (readBreakpoint fields) := by
      rw [readBreakpoint]
      split
      · exact failsOnly_invalid _
      · next hother =>
          intro failure hfails
          obtain ⟨report, rfl⟩ := exists_report_of_ofFields hwidth hfails
          exact absurd hfails (hother report)
    simp [hwidth, not_escapes hreported]

/-- The fields of each breakpoint of a table. -/
def breakpointFields : Data → List (Except Error Schema.Fields)
  | .mapping entries => entries.map fun (name, width) =>
      .ok [("name", .scalar name), ("min_width", width)]
  | .list items => items.map mappingFields
  | .scalar _ => []

/-- Of the breakpoints of a table the first one that cannot be read is oversized. -/
def ReachesOversized (table : Data) : Prop :=
  ∃ before fields after, breakpointFields table = before ++ .ok fields :: after ∧
    (∀ other ∈ before, ∃ breakpoint, (other >>= readBreakpoint) = .ok breakpoint) ∧
    HasOversizedWidth fields

theorem escapes_mapM_readBreakpoint {found : List (Except Error Schema.Fields)}
    (hfound : ∀ fields ∈ found, FailsOnly Error.ConcernsSettings fields) :
    Escapes (found.mapM (· >>= readBreakpoint)) error ↔
      error = .shape .widthTooLarge ∧ ∃ before fields after, found = before ++ .ok fields :: after ∧
        (∀ other ∈ before, ∃ breakpoint, (other >>= readBreakpoint) = .ok breakpoint) ∧
        HasOversizedWidth fields := by
  rw [escapes_mapM]
  constructor
  · rintro ⟨before, fields, after, rfl, hbefore, hescapes⟩
    rw [escapes_bind] at hescapes
    obtain hescapes | ⟨fields, rfl, hescapes⟩ := hescapes
    · exact absurd hescapes (not_escapes (hfound fields (by simp)))
    · obtain ⟨rfl, hwidth⟩ := escapes_readBreakpoint.1 hescapes
      exact ⟨rfl, before, fields, after, rfl, hbefore, hwidth⟩
  · rintro ⟨rfl, before, fields, after, rfl, hbefore, hwidth⟩
    refine ⟨before, .ok fields, after, rfl, hbefore, ?_⟩
    exact escapes_bind.2 (.inr ⟨fields, rfl, escapes_readBreakpoint.2 ⟨rfl, hwidth⟩⟩)

theorem escapes_readBreakpoints {table : Data} :
    Escapes (readBreakpoints table) error ↔
      error = .shape .widthTooLarge ∧ ReachesOversized table := by
  cases table with
  | mapping entries =>
      have hread : readBreakpoints (.mapping entries) =
          (breakpointFields (.mapping entries)).mapM (· >>= readBreakpoint) := by
        rw [breakpointFields, List.mapM_map]
        rfl
      rw [hread, ReachesOversized, escapes_mapM_readBreakpoint]
      intro fields hfields
      obtain ⟨entry, -, rfl⟩ := List.mem_map.1 hfields
      exact .of_ok _
  | list items =>
      have hread : readBreakpoints (.list items) =
          (breakpointFields (.list items)).mapM (· >>= readBreakpoint) := by
        rw [breakpointFields, List.mapM_map]
        rfl
      rw [hread, ReachesOversized, escapes_mapM_readBreakpoint]
      intro fields hfields
      obtain ⟨item, -, rfl⟩ := List.mem_map.1 hfields
      exact failsOnly_mappingFields item
  | scalar value =>
      have hreported : FailsOnly Error.ConcernsSettings (readBreakpoints (.scalar value)) := by
        unfold readBreakpoints
        split
        all_goals first | exact .of_ok _ | exact failsOnly_invalid _ | contradiction
      simp [not_escapes hreported, ReachesOversized, breakpointFields]

/-- A section for stylesheets that breaks off at a width. -/
def HasOversizedTable (data : Data) : Prop :=
  ∃ entries table, entriesOf data = .ok entries ∧
    Data.field? entries "breakpoints" = some table ∧ ReachesOversized table

theorem escapes_readCss {data : Data} :
    Escapes (readCss data) error ↔ error = .shape .widthTooLarge ∧ HasOversizedTable data := by
  rw [readCss, escapes_bind]
  constructor
  · rintro (hescapes | ⟨entries, hentries, hescapes⟩)
    · exact absurd hescapes (not_escapes (failsOnly_entriesOf data))
    · cases hfield : Data.field? entries "breakpoints" with
      | none =>
          rw [hfield] at hescapes
          refine absurd hescapes (not_escapes ?_)
          exact (failsOnly_fieldsOf entries).bind fun _ _ => failsOnly_checked _ _
      | some table =>
          rw [hfield] at hescapes
          obtain hescapes | ⟨breakpoints, -, hescapes⟩ := escapes_bind.1 hescapes
          · obtain ⟨rfl, hreaches⟩ := escapes_readBreakpoints.1 hescapes
            exact ⟨rfl, entries, table, hentries, hfield, hreaches⟩
          · refine absurd hescapes (not_escapes ?_)
            exact (failsOnly_fieldsOf entries).bind fun _ _ => failsOnly_checked _ _
  · rintro ⟨rfl, entries, table, hentries, hfield, hreaches⟩
    refine .inr ⟨entries, hentries, ?_⟩
    rw [hfield]
    exact escapes_bind.2 (.inl (escapes_readBreakpoints.2 ⟨rfl, hreaches⟩))

/-! ## All sections -/

/-- How reading settings from the sections of a file breaks off: at a width, or else at the
tiers if all sections before them can be read. -/
inductive BreaksOff (environment : Environment) (entries : List (Scalar × Data)) : Error → Prop where
  | width {build : BuildSettings}
      (hbuild : readBuild environment (sectionOf entries "build") = .ok build)
      (hcss : HasOversizedTable (sectionOf entries "css")) :
      BreaksOff environment entries (.shape .widthTooLarge)
  | tiers {build : BuildSettings} {css : CssSettings} {figma : FigmaSettings}
      (hbuild : readBuild environment (sectionOf entries "build") = .ok build)
      (hcss : readCss (sectionOf entries "css") = .ok css)
      (hfigma : readFigma (sectionOf entries "figma") = .ok figma)
      (htiers : HasOddTiers (sectionOf entries "tiers")) :
      BreaksOff environment entries (.shape .noMembers)

theorem escapes_ofData {environment : Environment} {entries : List (Scalar × Data)} :
    Escapes (ofData environment (.mapping entries)) error ↔ BreaksOff environment entries error := by
  rw [ofData, escapes_bind]
  constructor
  · rintro (hescapes | ⟨build, hbuild, hescapes⟩)
    · exact absurd hescapes (not_escapes (failsOnly_readBuild environment _))
    obtain hescapes | ⟨css, hcss, hescapes⟩ := escapes_bind.1 hescapes
    · obtain ⟨rfl, hcss⟩ := escapes_readCss.1 hescapes
      exact .width hbuild hcss
    obtain hescapes | ⟨figma, hfigma, hescapes⟩ := escapes_bind.1 hescapes
    · exact absurd hescapes (not_escapes (failsOnly_readFigma _))
    obtain hescapes | ⟨tiers, -, hescapes⟩ := escapes_bind.1 hescapes
    · obtain ⟨rfl, htiers⟩ := escapes_readTiers.1 hescapes
      exact .tiers hbuild hcss hfigma htiers
    · exact absurd hescapes (not_escapes (.of_ok _))
  · rintro (⟨hbuild, hcss⟩ | ⟨hbuild, hcss, hfigma, htiers⟩)
    · exact .inr ⟨_, hbuild, escapes_bind.2 (.inl (escapes_readCss.2 ⟨rfl, hcss⟩))⟩
    · refine .inr ⟨_, hbuild, escapes_bind.2 (.inr ⟨_, hcss, escapes_bind.2 (.inr ⟨_, hfigma, ?_⟩)⟩)⟩
      exact escapes_bind.2 (.inl (escapes_readTiers.2 ⟨rfl, htiers⟩))

/-! ## The file -/

/-- How loading the settings from a file fails without a word about the settings. -/
inductive FailsBare (files : FileTree) (file : Path) (word : Option String) : Error → Prop where
  | notUtf8 (htext : files.readText file = .error .notUtf8) :
      FailsBare files file word (.file .notUtf8)
  | scalar {text : String} {fault : ShapeFault} (htext : files.readText file = .ok text)
      (hread : Yaml.read text = .error (.scalar fault)) :
      FailsBare files file word (.shape fault)
  | sections {text : String} {entries : List (Scalar × Data)} {environment : Environment}
      {error : Error} (htext : files.readText file = .ok text)
      (hread : Yaml.read text = .ok (.mapping entries))
      (henvironment : (Environment.ofWord word).result = .ok environment)
      (hbreaks : BreaksOff environment entries error) :
      FailsBare files file word error

variable {files : FileTree} {file : Path} {word : Option String}

theorem exists_environment (word : Option String) :
    ∃ environment, (Environment.ofWord word).result = .ok environment := by
  rw [Environment.ofWord]
  split
  · exact ⟨_, rfl⟩
  · exact ⟨_, rfl⟩

theorem escapes_read {entries : List (Scalar × Data)} :
    Escapes (read word (.mapping entries)).result error ↔ ∃ environment,
      (Environment.ofWord word).result = .ok environment ∧ BreaksOff environment entries error := by
  obtain ⟨environment, henvironment⟩ := exists_environment word
  rw [read, Traced.result_bind, henvironment]
  simp only [Except.ok.injEq, exists_eq_left']
  exact escapes_ofData

/-- Without any section all settings have their defaults. -/
theorem not_breaksOff_nil {environment : Environment} : ¬ BreaksOff environment [] error := by
  rw [← escapes_ofData]
  exact not_escapes (.of_ok _)

theorem not_escapes_read_nil : ¬ Escapes (read word (.mapping [])).result error := by
  rw [escapes_read]
  rintro ⟨environment, -, hbreaks⟩
  exact not_breaksOff_nil hbreaks

theorem throw_eq_error (failure : Error) : (throw failure : Except Error α) = .error failure := rfl

theorem readFile_eq_ok {data : Data} : readFile files file = .ok data ↔
    ∃ text, files.readText file = .ok text ∧ Yaml.read text = .ok data := by
  rw [readFile]
  cases htext : files.readText file with
  | error fault => cases fault <;> simp [throw_eq_error]
  | ok text =>
      cases hread : Yaml.read text with
      | error fault => cases fault <;> simp [hread, throw_eq_error]
      | ok found => simp [hread, pure, Except.pure]

theorem escapes_readFile : Escapes (readFile files file) error ↔
    (files.readText file = .error .notUtf8 ∧ error = .file .notUtf8) ∨
      ∃ text fault, files.readText file = .ok text ∧ Yaml.read text = .error (.scalar fault) ∧
        error = .shape fault := by
  rw [readFile]
  cases htext : files.readText file with
  | error fault =>
      cases fault <;>
        simp [throw_eq_error, escapes_error_iff, Error.ConcernsSettings, Problem.concernsSettings]
  | ok text =>
      cases hread : Yaml.read text with
      | error fault =>
          cases fault <;>
            simp [hread, throw_eq_error, escapes_error_iff, Error.ConcernsSettings,
              Problem.concernsSettings]
      | ok data => simp [hread, not_escapes (.of_ok data), pure, Except.pure]

/-- Where nothing lies no text can be read. -/
theorem not_failsBare_of_at?_eq_none (hnone : files.at? file = none) :
    ¬ FailsBare files file word error := by
  have hfails : ∃ fault, files.readText file = .error fault ∧ fault ≠ .notUtf8 := by
    rw [FileTree.at?] at hnone
    rw [FileTree.readText]
    cases hlocate : files.locate file with
    | error fault =>
        refine ⟨fault, rfl, ?_⟩
        rintro rfl
        exact FileTree.locateFrom_ne_notUtf8 hlocate
    | ok names =>
        simp only [hlocate] at hnone
        refine ⟨.notFound, ?_, by simp⟩
        simp only [bind, Except.bind, hnone]
        rfl
  obtain ⟨fault, hfails, hfault⟩ := hfails
  rintro (htext | ⟨htext, -⟩ | ⟨htext, -, -, -⟩)
  · exact hfault (Except.error.inj (hfails.symm.trans htext))
  · rw [hfails] at htext
    cases htext
  · rw [hfails] at htext
    cases htext

/-- What is read where nothing lies. -/
theorem result_load_of_at?_eq_none {root : Path} {path : Option Path}
    (hnone : files.at? (path.getD (root / fileName)) = none) :
    (load files root path word).result = if path.isSome then
        .error (.problem (.noSettings (path.getD (root / fileName)).shown) none)
      else (read word (.mapping [])).result := by
  simp only [load, hnone, Option.isNone_none, if_true]
  split_ifs
  · rfl
  · rw [Traced.result_note_bind]

/-- Settings from all data of a file. -/
def readData (word : Option String) (file : Path) (data : Data) : Except Error Settings :=
  if data.isSet then
    match data with
    | .mapping _ => (read word data).result
    | _ => .error (.problem (.settingsNotMapping file.shown) none)
  else
    (read word (.mapping [])).result

/-- What is read where something lies. -/
theorem result_load_of_at?_ne_none {root : Path} {path : Option Path}
    (hsome : files.at? (path.getD (root / fileName)) ≠ none) :
    (load files root path word).result =
      readFile files (path.getD (root / fileName)) >>=
        readData word (path.getD (root / fileName)) := by
  simp only [load, Option.isNone_iff_eq_none, hsome, if_false, Traced.result_bind]
  refine congrArg _ (funext fun data => ?_)
  rw [readData.eq_def]
  cases data.isSet with
  | true =>
      simp only [Bool.not_true, Bool.false_eq_true, if_false, if_true]
      cases data <;> rfl
  | false => simp only [Bool.not_false, Bool.false_eq_true, if_false, if_true, Traced.result_note_bind]

theorem escapes_readData {data : Data} : Escapes (readData word file data) error ↔
    ∃ entries, data = .mapping entries ∧ ∃ environment,
      (Environment.ofWord word).result = .ok environment ∧ BreaksOff environment entries error := by
  have hproblem : ¬ Escapes (.error (.problem (.settingsNotMapping file.shown) none) :
      Except Error Settings) error := not_escapes (.of_error rfl)
  rw [readData.eq_def]
  cases data with
  | mapping entries =>
      simp only [Data.mapping.injEq, exists_eq_left']
      split_ifs with hset
      · exact escapes_read
      · have hnone : entries = [] := by simpa [Data.isSet] using hset
        subst hnone
        simp only [not_escapes_read_nil, not_breaksOff_nil, and_false, exists_false]
  | list items => split_ifs <;> simp [hproblem, not_escapes_read_nil]
  | scalar value => split_ifs <;> simp [hproblem, not_escapes_read_nil]

/-- Settings are loaded or a problem with them is reported, with these exceptions. -/
theorem escapes_load_iff (files : FileTree) (root : Path) (path : Option Path) (word : Option String)
    (error : Error) :
    Escapes (load files root path word).result error ↔
      FailsBare files (path.getD (root / fileName)) word error := by
  by_cases hnone : files.at? (path.getD (root / fileName)) = none
  · rw [result_load_of_at?_eq_none hnone, iff_false_right (not_failsBare_of_at?_eq_none hnone)]
    split_ifs
    · exact not_escapes (.of_error rfl)
    · exact not_escapes_read_nil
  · rw [result_load_of_at?_ne_none hnone, escapes_bind, escapes_readFile]
    simp only [escapes_readData, readFile_eq_ok]
    constructor
    · rintro ((⟨htext, rfl⟩ | ⟨text, fault, htext, hread, rfl⟩) |
        ⟨_, ⟨text, htext, hread⟩, entries, rfl, environment, henvironment, hbreaks⟩)
      · exact .notUtf8 htext
      · exact .scalar htext hread
      · exact .sections htext hread henvironment hbreaks
    · rintro (htext | ⟨htext, hread⟩ | ⟨htext, hread, henvironment, hbreaks⟩)
      · exact .inl (.inl ⟨htext, rfl⟩)
      · exact .inl (.inr ⟨_, _, htext, hread, rfl⟩)
      · exact .inr ⟨_, ⟨_, htext, hread⟩, _, rfl, _, henvironment, hbreaks⟩

/-- What is loaded where the settings file is the only one. -/
def loadedFrom (node : FileNode) : Except Error Settings :=
  (load ⟨[(["proj"], .directory), (["proj", fileName], node)], ["proj"]⟩ ⟨"/", ["proj"]⟩ none
    none).result

def failsWith (x : Except Error α) (failure : Error) : Bool :=
  match x with
  | .ok _ => false
  | .error found => found = failure

theorem eq_error_of_failsWith {x : Except Error α} (hfails : failsWith x error = true) :
    x = .error error := by
  cases x with
  | ok a => cases hfails
  | error found => rw [of_decide_eq_true hfails]

/-- A list of tiers, and a file that is not UTF-8 text. -/
theorem escapes_loadedFrom :
    Escapes (loadedFrom (.text "tiers: [sites]\n")) (.shape .noMembers) ∧
      Escapes (loadedFrom (.octets [255])) (.file .notUtf8) :=
  ⟨⟨eq_error_of_failsWith (by decide +kernel), id⟩,
    ⟨eq_error_of_failsWith (by decide +kernel), id⟩⟩

end Settings

end DesignTokens
