import DesignTokens.Project.Validation
import DesignTokens.Proofs.Files.AllOrNothing
import DesignTokens.Proofs.Project.Orders
import DesignTokens.Proofs.Project.Refusals

/-!
# Settings that were checked

Checking settings lets through only tiers whose mode files are all there. A build looks for
them again, one after the other, and writes stylesheets in between. What it writes takes no
file away but the one beside a stylesheet: as long as no mode file is such a one, each of them
is still there when its turn comes, and the build refuses no tier that was checked.
-/

namespace DesignTokens

open Failing

namespace Traced

variable {α β : Type}

theorem exists_bind_eq_ok {x : Traced α} {f : α → Traced β} (hx : ∃ a, x.result = .ok a)
    (hf : ∀ a, ∃ b, (f a).result = .ok b) : ∃ b, (x >>= f).result = .ok b := by
  obtain ⟨a, ha⟩ := hx
  obtain ⟨b, hb⟩ := hf a
  exact ⟨b, bind_eq_ok.2 ⟨a, ha, hb⟩⟩

theorem exists_mapM_eq_ok {f : α → Traced β} {xs : List α}
    (hall : ∀ x ∈ xs, ∃ y, (f x).result = .ok y) : ∃ ys, (xs.mapM f).result = .ok ys := by
  obtain ⟨ys, hys⟩ := Paired.exists_of_forall_exists hall
  exact ⟨ys, mapM_eq_ok.2 hys⟩

end Traced

/-! ### Work that leads from one kind of trees to another -/

namespace Work

variable {α β : Type} {before middle after : FileTree → Prop} {harmless : Error → Prop}

/-- From trees of the first kind the work leads to trees of the second one, or it fails in a
harmless way. -/
def Leads (before after : FileTree → Prop) (harmless : Error → Prop) (work : Work α) : Prop :=
  ∀ state, before state.files →
    (∀ a, (work.outcomeFrom state).1 = .ok a → after (work.outcomeFrom state).2) ∧
      FailsOnly harmless (work.outcomeFrom state).1

theorem leads_pure (a : α) : Leads before before harmless (pure a : Work α) :=
  fun _ hstate => ⟨fun _ _ => hstate, .of_ok a⟩

theorem leads_throw {error : Error} (hharmless : harmless error) :
    Leads before after harmless (throw error : Work α) :=
  fun _ _ => ⟨fun _ hdone => (by cases hdone), .of_error hharmless⟩

theorem leads_reading {f : FileTree → Traced α}
    (hfails : ∀ files, before files → FailsOnly harmless (f files).result) :
    Leads before before harmless (reading f) := by
  intro state hstate
  rw [outcomeFrom_reading]
  exact ⟨fun _ _ => hstate, hfails state.files hstate⟩

theorem leads_note (notice : Notice) : Leads before before harmless (note notice) :=
  leads_reading fun _ _ => .of_ok ()

theorem leads_write {path : Path} {content : String} (hfile : ∀ fault, harmless (.file fault))
    (hwrite : ∀ files, before files → before (files.writeWhole path content).2) :
    Leads before before harmless (write path content) := by
  intro state hstate
  rw [outcomeFrom_write]
  exact ⟨fun _ _ => hwrite state.files hstate, .mapError hfile⟩

theorem Leads.mono {last : FileTree → Prop} {work : Work α}
    (hwork : Leads before after harmless work) (himplies : ∀ files, after files → last files) :
    Leads before last harmless work :=
  fun state hstate => ⟨fun a ha => himplies _ ((hwork state hstate).1 a ha), (hwork state hstate).2⟩

theorem Leads.bind {work : Work α} {next : α → Work β}
    (hwork : Leads before middle harmless work)
    (hnext : ∀ a, Leads middle after harmless (next a)) :
    Leads before after harmless (work >>= next) := by
  intro state hstate
  obtain ⟨hdone, hfails⟩ := hwork state hstate
  rw [outcomeFrom_bind]
  rw [outcomeFrom] at hdone hfails
  rcases hrun : work.run.run state with ⟨error | a, later⟩
  · rw [hrun] at hfails
    exact ⟨fun _ hdone => (by cases hdone), .of_error (hfails error rfl)⟩
  · rw [hrun] at hdone
    exact hnext a later (hdone a rfl)

theorem Leads.mapM {γ : Type} {work : γ → Work α} {xs : List γ}
    (hwork : ∀ x ∈ xs, Leads before before harmless (work x)) :
    Leads before before harmless (xs.mapM work) := by
  induction xs with
  | nil => exact leads_pure []
  | cons x rest ih =>
      obtain ⟨hfirst, hrest⟩ := List.forall_mem_cons.1 hwork
      rw [List.mapM_cons]
      exact hfirst.bind fun a => (ih hrest).bind fun as => leads_pure (a :: as)

end Work

namespace Project

open DesignTokens.Path FileTree

variable {project : Project} {files : FileTree} {tier : Tier} {found : List Finding}
  {name : String}

/-! ### What the check lets through -/

/-- The check of settings always comes to its end. -/
theorem exists_result_validate (project : Project) (files : FileTree) :
    ∃ found, (project.validate files).result = .ok found := by
  refine Traced.exists_bind_eq_ok (Traced.exists_mapM_eq_ok fun entry _ => ?_) fun _ => ⟨_, rfl⟩
  refine Traced.exists_bind_eq_ok ?_ fun _ => ⟨_, rfl⟩
  refine Traced.exists_bind_eq_ok (Traced.exists_mapM_eq_ok fun pattern _ => ?_) fun _ => ⟨_, rfl⟩
  exact Traced.exists_bind_eq_ok ⟨_, files.result_expand project.root [pattern]⟩ fun _ => ⟨_, rfl⟩

/-- Whatever is wrong with the modes of a tier is found. -/
theorem mem_of_validate (hfound : (project.validate files).result = .ok found)
    {entry : String × Tier} (hentry : entry ∈ project.settings.tiers) {finding : Finding}
    (hfinding : finding ∈ project.checkModes files entry.2) : finding ∈ found := by
  obtain ⟨each, heach, hflat⟩ := Traced.bind_eq_ok.1 hfound
  obtain rfl := Except.ok.inj hflat
  obtain ⟨own, hown, hchecked⟩ := Paired.exists_of_mem_left (Traced.mapM_eq_ok.1 heach) hentry
  obtain ⟨patterns, -, hall⟩ := Traced.bind_eq_ok.1 hchecked
  obtain rfl := Except.ok.inj hall
  exact List.mem_flatten.2 ⟨_, hown, List.mem_append_left _ hfinding⟩

/-- The files of the modes of a tier. -/
def modePaths (project : Project) (tier : Tier) : List Path :=
  tier.modes.flatMap fun modes => modes.2.map fun mode => project.root / mode.2

/-- If nothing is wrong with the modes of a tier, all their files are there. -/
theorem isSome_of_checkModes
    (hvalid : ∀ finding ∈ project.checkModes files tier, finding.isError = false) :
    ∀ path ∈ project.modePaths tier, (files.at? path).isSome := by
  intro path hpath
  obtain ⟨⟨category, modes⟩, hmodes, hmem⟩ := List.mem_flatMap.1 hpath
  obtain ⟨⟨mode, file⟩, hmode, rfl⟩ := List.mem_map.1 hmem
  by_contra hnone
  by_cases hcategory : category ∈ Stylesheet.Category.all
  · have hmissing : Finding.missingModeFile tier.name category mode file ∈
        project.checkModes files tier := by
      refine List.mem_flatMap.2 ⟨_, hmodes, ?_⟩
      simp only [if_pos hcategory]
      exact List.mem_filterMap.2 ⟨_, hmode, if_neg hnone⟩
    cases hvalid _ hmissing
  · have hunknown : Finding.unknownCategory tier.name category ∈ project.checkModes files tier := by
      refine List.mem_flatMap.2 ⟨_, hmodes, ?_⟩
      simp only [if_neg hcategory]
      exact List.mem_singleton_self _
    cases hvalid _ hunknown

/-! ### What a build keeps -/

/-- No mode file of the tier is one that is written beside a stylesheet for its modes. -/
def ClearOfModes (project : Project) (here : Place) (tier : Tier) : Prop :=
  ∀ path ∈ project.modePaths tier, ∀ sheet ∈ project.modeSheets tier,
    path.place here ≠ sheet.temporaryPlace here

/-- A tree in which the mode files of the tier are all there. -/
structure HasModes (project : Project) (tier : Tier) (here : Place) (files : FileTree) : Prop where
  wellFormed : files.WellFormed
  here : files.here = here
  modeFiles : ∀ path ∈ project.modePaths tier, (files.at? path).isSome

theorem HasModes.writeWhole {here : Place} (hclear : project.ClearOfModes here tier)
    (hmodes : project.HasModes tier here files) {sheet : Path}
    (hsheet : sheet ∈ project.modeSheets tier) (content : String) :
    project.HasModes tier here (files.writeWhole sheet content).2 := by
  obtain ⟨hedited, -⟩ := writeWhole_spec hmodes.wellFormed sheet content
  refine ⟨hedited.wellFormed, hedited.here.trans hmodes.here, fun path hpath => ?_⟩
  refine isSome_at?_writeWhole hmodes.wellFormed ?_ (hmodes.modeFiles path hpath)
  rw [hmodes.here]
  exact hclear path hpath sheet hsheet

theorem leads_writeSheet {good : FileTree → Prop} {path : Path} {text : String}
    (hwrite : ∀ files, good files → good (files.writeWhole path text).2) :
    Work.Leads good good Error.SparesTier (project.writeSheet path text) := by
  refine (Work.leads_write Error.sparesTier_file hwrite).bind fun _ => ?_
  split
  · split
    · exact (Work.leads_note _).bind fun _ => Work.leads_pure _
    · exact (Work.leads_throw (Error.sparesTier_shape _)).bind fun _ => Work.leads_pure _
  · exact Work.leads_pure _

/-- The files of a category with modes are written from trees with all mode files, and leave
such a tree. -/
theorem leads_buildModes {here : Place} (hclear : project.ClearOfModes here tier)
    {modes : String × List (String × String)} (hmodes : modes ∈ tier.modes) :
    Work.Leads (project.HasModes tier here) (project.HasModes tier here) Error.SparesTier
      (project.buildModes tier modes.1 modes.2) := by
  have hsheet (sheet : String) (hmem : sheet ∈ "primitive" :: modes.2.map Prod.fst)
      (text : String) :
      Work.Leads (project.HasModes tier here) (project.HasModes tier here) Error.SparesTier
        (project.writeSheet (sheetPath (project.sheetDirectory tier / modes.1) sheet) text) :=
    leads_writeSheet fun files hfiles => hfiles.writeWhole hclear
      (List.mem_flatMap.2 ⟨modes, hmodes, List.mem_map_of_mem hmem⟩) text
  refine Work.Leads.bind ?_ fun primitives => (Work.Leads.mapM fun mode hmode => ?_).bind
    fun others => Work.leads_pure _
  · refine (Work.leads_reading fun files _ => ?_).bind fun text => hsheet _ List.mem_cons_self text
    exact Traced.failsOnly_bind (project.failsOnly_loadTier files tier _ _ _) fun tokens _ =>
      Stylesheet.failsOnly_categoryText_settings _ _ _ _
  · refine (Work.leads_reading fun files hfiles => ?_).bind fun text =>
      hsheet _ (List.mem_cons_of_mem _ (List.mem_map_of_mem hmode)) text
    have hsome : (files.at? (project.root / mode.2)).isSome :=
      hfiles.modeFiles _ (List.mem_flatMap.2 ⟨modes, hmodes, List.mem_map_of_mem hmode⟩)
    have hthere : (files.at? (project.root / mode.2)).isNone = false := by simp [hsome]
    rw [if_neg (by simp [hthere])]
    exact Traced.failsOnly_bind (project.failsOnly_loadTier files tier _ _ _) fun tokens _ =>
      Stylesheet.failsOnly_modeText_settings _ _ _ _ _

/-- All stylesheets but the last are written from a tree with all mode files. -/
theorem leads_buildSheets {here : Place} (hclear : project.ClearOfModes here tier) :
    Work.Leads (project.HasModes tier here) (fun _ => True) Error.SparesTier
      (project.buildSheets tier) := by
  refine ((Work.Leads.mapM fun modes hmodes => leads_buildModes hclear hmodes).mono
    fun _ _ => trivial).bind fun moded => ?_
  refine (Work.leads_reading fun files _ => project.failsOnly_loadTier files tier _ _ _).bind
    fun tokens => (Work.Leads.mapM fun category _ => ?_).bind fun sheets => Work.leads_pure _
  exact (Work.leads_reading fun _ _ => Stylesheet.failsOnly_categoryText_settings _ _ _ _).bind
    fun text => leads_writeSheet fun _ _ => trivial

/-- What is written after them is written from any tree. -/
theorem leads_buildRest (project : Project) (tier : Tier) (sheets : Sheets)
    (text : Option String) :
    Work.Leads (fun _ => True) (fun _ => True) Error.SparesTier
      (project.buildRest tier sheets text) := by
  have hwrite (path : Path) (content : String) : Work.Leads (fun _ => True) (fun _ => True)
      Error.SparesTier (Work.write path content) :=
    Work.leads_write Error.sparesTier_file fun _ _ => trivial
  have himports : Work.Leads (fun _ => True) (fun _ => True) Error.SparesTier
      (writeImports (project.sheetDirectory tier) text) := by
    cases text with
    | none => exact Work.leads_pure none
    | some text =>
        exact (hwrite _ _).bind fun _ => (Work.leads_note _).bind fun _ => Work.leads_pure _
  refine himports.bind fun importing => Work.Leads.bind ?_ fun documents => Work.leads_pure _
  rw [writeDocuments]
  split
  · refine (Work.leads_reading fun _ _ => Figma.failsOnly_nested _ _).bind fun tree =>
      (hwrite _ _).bind fun _ => ?_
    exact (Work.leads_reading fun _ _ => Figma.failsOnly_textStyles _ _ _).bind fun styles =>
      (hwrite _ _).bind fun _ => (Work.leads_note _).bind fun _ => Work.leads_pure _
  · exact Work.leads_pure []

theorem leads_buildFiles {here : Place} (hclear : project.ClearOfModes here tier) :
    Work.Leads (project.HasModes tier here) (fun _ => True) Error.SparesTier
      (project.buildFiles tier) := by
  rw [buildFiles_eq]
  exact (leads_buildSheets hclear).bind fun sheets =>
    (Work.leads_reading fun files _ => failsOnly_importSheet files _ _ _).bind fun text =>
      leads_buildRest project tier sheets text

/-- If nothing is wrong with the settings, no mode file lies inside an output directory, and none
is the file beside a stylesheet that the name of a mode puts elsewhere, then no build of a tier
ends because the tier or a mode file is missing. -/
theorem build_sparesTier (hfiles : files.WellFormed)
    (hfound : (project.validate files).result = .ok found)
    (hvalid : ∀ finding ∈ found, finding.isError = false)
    (hinside : ∀ entry ∈ project.settings.tiers, ∀ path ∈ project.modePaths entry.2,
      ¬ Within files.here project.outputs (path.place files.here))
    (hbeside : ∀ entry ∈ project.settings.tiers, ∀ path ∈ project.modePaths entry.2,
      ∀ sheet ∈ project.modeSheets entry.2,
        ¬ Within files.here project.outputs (sheet.temporaryPlace files.here) →
          path.place files.here ≠ sheet.temporaryPlace files.here)
    (hname : name ∈ project.tierNames) (notices : List Notice) :
    FailsOnly Error.SparesTier ((project.build name).outcomeFrom ⟨files, notices⟩).1 := by
  obtain ⟨tier, htier⟩ := Option.isSome_iff_exists.1 ((Entries.isSome_get?_iff _ _).2 hname)
  have hentry : (name, tier) ∈ project.settings.tiers := mem_tiers_of_tier? htier
  have hclear : project.ClearOfModes files.here tier := by
    intro path hpath sheet hsheet heq
    by_cases hwithin : Within files.here project.outputs (sheet.temporaryPlace files.here)
    · exact hinside _ hentry path hpath (heq ▸ hwithin)
    · exact hbeside _ hentry path hpath sheet hsheet hwithin heq
  have hmodes : project.HasModes tier files.here files := ⟨hfiles, rfl, isSome_of_checkModes
    fun finding hfinding => hvalid _ (mem_of_validate hfound hentry hfinding)⟩
  rw [build_of_tier? htier]
  exact (leads_buildFiles hclear ⟨files, notices⟩ hmodes).2

/-- A tier with two modes for colors. The name of the first one leads out of the directory for
stylesheets. -/
def wandering (file : String) : Project := sample
  [("t", { name := "t", modes := [("color", [("../../../b", "a.json"), ("dark", file)])] })]

/-- Files without tokens, one with the ending of those that are written beside others. -/
def wanderingFiles : FileTree where
  entries := [(["p"], .directory), (["p", "a.json"], .text "\x7b\x7d"),
    (["p", "b.css.tmp"], .text "\x7b\x7d")]
  here := ["p"]

theorem wellFormed_wanderingFiles : wanderingFiles.WellFormed :=
  wellFormed_of_entries (by decide) (by decide) (by decide)

theorem build_sparesTier_wandering :
    wanderingFiles.WellFormed ∧
      ((wandering "a.json").validate wanderingFiles).result = .ok [] ∧
      (∀ entry ∈ (wandering "a.json").settings.tiers,
        ∀ path ∈ (wandering "a.json").modePaths entry.2,
          ¬ Within wanderingFiles.here (wandering "a.json").outputs
            (path.place wanderingFiles.here)) ∧
      "t" ∈ (wandering "a.json").tierNames ∧
      FailsOnly Error.SparesTier
        (((wandering "a.json").build "t").outcomeFrom ⟨wanderingFiles, []⟩).1 := by
  have hvalid : ((wandering "a.json").validate wanderingFiles).result = .ok [] := by decide +kernel
  have hinside : ∀ entry ∈ (wandering "a.json").settings.tiers,
      ∀ path ∈ (wandering "a.json").modePaths entry.2,
        ¬ Within wanderingFiles.here (wandering "a.json").outputs
          (path.place wanderingFiles.here) := by decide
  have hname : "t" ∈ (wandering "a.json").tierNames := by decide
  exact ⟨wellFormed_wanderingFiles, hvalid, hinside, hname,
    build_sparesTier wellFormed_wanderingFiles hvalid (by decide) hinside (by decide) hname []⟩

/-- The stylesheet of the first mode takes away the file beside it, which is that of the second
one. -/
theorem build_wandering_refusesTier :
    wanderingFiles.WellFormed ∧
      ((wandering "b.css.tmp").validate wanderingFiles).result = .ok [] ∧
      (∀ entry ∈ (wandering "b.css.tmp").settings.tiers,
        ∀ path ∈ (wandering "b.css.tmp").modePaths entry.2,
          ¬ Within wanderingFiles.here (wandering "b.css.tmp").outputs
            (path.place wanderingFiles.here)) ∧
      "t" ∈ (wandering "b.css.tmp").tierNames ∧
      ∃ error, (((wandering "b.css.tmp").build "t").outcomeFrom ⟨wanderingFiles, []⟩).1 =
          .error error ∧ error.RefusesTier := by
  have herror : (((wandering "b.css.tmp").build "t").outcomeFrom ⟨wanderingFiles, []⟩).1 =
      .error (.problem (.missingModeFile "dark") (some {
        file := some "/p/b.css.tmp"
        tier := some "t"
        category := some "color" })) := by decide +kernel
  exact ⟨wellFormed_wanderingFiles, by decide +kernel, by decide, by decide, _, herror,
    .missingModeFile _ _⟩

end Project

end DesignTokens
