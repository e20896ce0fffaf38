import DesignTokens.Proofs.Project.Rebuilding

/-!
# Building several tiers

What a tier leaves and what it reports is settled by the first tree and the tier alone. So
after any number of builds each place holds what one of these tiers leaves there when it is
built alone, or what it held at first: the order does not matter, and what has been built can
be built again.
-/

namespace DesignTokens.Project

open DesignTokens.Path FileTree

/-- What becomes of a tier, as it is reported: its files, or the text of its error. -/
def TierResult.report (result : TierResult) : String × Except String (List Path) :=
  (result.tier, result.outcome.mapError Error.message)

/-- What the build of a tier comes to if it is the first one, and the files after it. -/
def alone (project : Project) (start : FileTree) (name : String) :
    Except Error (List Path) × FileTree :=
  (project.build name).outcomeFrom ⟨start, []⟩

/-- The report of a tier that is built first. -/
def reportAlone (project : Project) (start : FileTree) (name : String) :
    String × Except String (List Path) :=
  (name, (project.alone start name).1.mapError Error.message)

/-- The tree when some tiers have been built: each of them has left at every place that it
changes what it leaves there alone. -/
structure Built (project : Project) (start : FileTree) (done : List String) (tree : FileTree) :
    Prop where
  around : project.Around start tree
  kept : ∀ place, (∀ name ∈ done, (project.alone start name).2.node? place = start.node? place) →
    tree.node? place = start.node? place
  changed : ∀ name ∈ done, ∀ place,
    (project.alone start name).2.node? place ≠ start.node? place →
      tree.node? place = (project.alone start name).2.node? place

variable {project : Project} {start tree first second : FileTree} {name key : String} {tier : Tier}
  {names done more : List String} {place : Place} {state : WorkState}

theorem Built.nil (hstart : start.WellFormed) : project.Built start [] start where
  around := .refl hstart
  kept _ _ := rfl
  changed _ hname := absurd hname (List.not_mem_nil)

/-- The names of the tiers that have been built determine what is at every place. -/
theorem Built.same (hfirst : project.Built start done first) (hsecond : project.Built start more second)
    (hnames : ∀ name, name ∈ done ↔ name ∈ more) : FileTree.Same first second := by
  refine ⟨hfirst.around.here.trans hsecond.around.here.symm, fun place => ?_⟩
  by_cases hkept : ∀ name ∈ done, (project.alone start name).2.node? place = start.node? place
  · rw [hfirst.kept place hkept,
      hsecond.kept place fun name hname => hkept name ((hnames name).2 hname)]
  · push Not at hkept
    obtain ⟨name, hname, hchanged⟩ := hkept
    rw [hfirst.changed name hname place hchanged,
      hsecond.changed name ((hnames name).1 hname) place hchanged]

theorem Built.congr (hbuilt : project.Built start done tree)
    (hnames : ∀ name, name ∈ done ↔ name ∈ more) : project.Built start more tree where
  around := hbuilt.around
  kept place hkept := hbuilt.kept place fun name hname => hkept name ((hnames name).1 hname)
  changed name hname := hbuilt.changed name ((hnames name).2 hname)

/-! ### One tier -/

theorem mem_tiers_of_tier? (htier : project.tier? name = some tier) :
    (name, tier) ∈ project.settings.tiers :=
  Entries.mem_of_get?_eq_some htier

theorem build_of_tier? (htier : project.tier? name = some tier) :
    project.build name = project.buildFiles tier := by
  rw [build, htier]

theorem outcomeFrom_build_of_none (htier : project.tier? name = none) (state : WorkState) :
    (project.build name).outcomeFrom state =
      (.error (.problem (.unknownTier name) none), state.files) := by
  rw [build, htier]
  rfl

/-- A tier that is built alone changes places inside its directories and makes directories on
the way there. -/
theorem Separate.alone_cases (hseparate : project.Separate start (project.Unsettled start))
    (hchanged : (project.alone start name).2.node? place ≠ start.node? place) :
    ∃ tier, project.tier? name = some tier ∧
      (Within start.here (project.outputsOf tier) place ∨
        Leading start.here (project.outputsOf tier) place ∧
          (project.alone start name).2.node? place = some .directory) := by
  cases htier : project.tier? name with
  | none =>
      rw [alone, outcomeFrom_build_of_none htier] at hchanged
      exact absurd rfl hchanged
  | some tier =>
      refine ⟨tier, rfl, ?_⟩
      rw [alone, build_of_tier? htier] at hchanged ⊢
      have hagain := hseparate.outcomeFrom_tracks (mem_tiers_of_tier? htier) ⟨start, []⟩ ⟨start, []⟩
        rfl (.refl hseparate.wellFormed) (fun _ _ => .inl rfl) (fun h : False => h.elim)
      by_cases hown : Within start.here (project.outputsOf tier) place
      · exact .inl hown
      · rcases hagain.2.outside place hown with ⟨hsame, -⟩ | ⟨hleading, -, hdirectory, -⟩
        · exact absurd hsame hchanged
        · exact .inr ⟨hleading, hdirectory⟩

/-- Where one tier is built no other one changes anything. -/
theorem Separate.alone_eq_of_ne (hseparate : project.Separate start (project.Unsettled start))
    {other : String} (htier : project.tier? name = some tier) (hne : other ≠ name)
    (hplace : Within start.here (project.outputsOf tier) place) :
    (project.alone start other).2.node? place = start.node? place := by
  by_contra hchanged
  obtain ⟨foreign, hforeign, hcases⟩ := hseparate.alone_cases hchanged
  have hentries : (other, foreign) ≠ (name, tier) := fun heq => hne (Prod.mk.inj heq).1
  exact hseparate.not_within_of_ne (mem_tiers_of_tier? hforeign) (mem_tiers_of_tier? htier) hentries
    (hcases.imp_right And.left) hplace

theorem Around.of_tracks {again : Prop} {other last : FileTree} (haround : project.Around start other)
    (htier : (key, tier) ∈ project.settings.tiers)
    (htracks : Tracks (project.ground start tier) again start other last first second) :
    project.Around start second where
  wellFormed := htracks.wellFormed.2
  here := htracks.here.2
  outside place hwithin := by
    have hown : ¬ Within start.here (project.outputsOf tier) place := fun h =>
      hwithin (h.mono fun _ => mem_outputs htier)
    rcases htracks.outside place hown with ⟨-, hsame⟩ | ⟨⟨directory, hmem, hway⟩, hnone, -, hmade⟩
    · rw [hsame]
      exact haround.outside place hwithin
    · exact .inr ⟨⟨directory, mem_outputs htier hmem, hway⟩, hnone, hmade⟩

/-- Where a tier is built there is what was there at first, or what the tier has left. -/
theorem Built.own_cases (hbuilt : project.Built start done tree)
    (hseparate : project.Separate start (project.Unsettled start))
    (htier : project.tier? name = some tier)
    (hplace : Within start.here (project.outputsOf tier) place) :
    tree.node? place = start.node? place ∨
      name ∈ done ∧ tree.node? place = (project.alone start name).2.node? place := by
  by_cases hkept : ∀ other ∈ done, (project.alone start other).2.node? place = start.node? place
  · exact .inl (hbuilt.kept place hkept)
  · push Not at hkept
    obtain ⟨other, hother, hchanged⟩ := hkept
    obtain rfl : other = name := by
      by_contra hne
      exact hchanged (hseparate.alone_eq_of_ne htier hne hplace)
    exact .inr ⟨hother, hbuilt.changed other hother place hchanged⟩

/-- An unknown tier changes nothing. -/
theorem Built.cons_of_none (hbuilt : project.Built start done tree)
    (htier : project.tier? name = none) : project.Built start (name :: done) tree where
  around := hbuilt.around
  kept place hkept := hbuilt.kept place fun other hother =>
    hkept other (List.mem_cons_of_mem _ hother)
  changed other hother place hchanged := by
    rcases List.mem_cons.1 hother with rfl | hother
    · rw [alone, outcomeFrom_build_of_none htier] at hchanged
      exact absurd rfl hchanged
    · exact hbuilt.changed other hother place hchanged

/-- A tree to which the build of a tier leads as it does from the first one. -/
theorem Built.cons_of_tracks {again : Prop} (hbuilt : project.Built start done first)
    (hseparate : project.Separate start (project.Unsettled start))
    (htier : project.tier? name = some tier)
    (htracks : Tracks (project.ground start tier) again start first (project.alone start name).2
      (project.alone start name).2 second) : project.Built start (name :: done) second := by
  have hmem := mem_tiers_of_tier? htier
  have hlast (place : Place) (hplace : Within start.here (project.outputsOf tier) place) :
      second.node? place = (project.alone start name).2.node? place :=
    (htracks.own place hplace).elim id And.right
  refine ⟨hbuilt.around.of_tracks hmem htracks, fun place hkept => ?_,
    fun other hother place hchanged => ?_⟩
  · have hname := hkept name List.mem_cons_self
    by_cases hplace : Within start.here (project.outputsOf tier) place
    · rw [hlast place hplace, hname]
    · rcases htracks.outside place hplace with ⟨-, hsame⟩ | ⟨-, hnone, hmade, -⟩
      · rw [hsame]
        exact hbuilt.kept place fun other hother => hkept other (List.mem_cons_of_mem _ hother)
      · rw [hname, hnone] at hmade
        simp at hmade
  · by_cases hplace : Within start.here (project.outputsOf tier) place
    · obtain rfl : other = name := by
        by_contra hne
        exact hchanged (hseparate.alone_eq_of_ne htier hne hplace)
      exact hlast place hplace
    · rcases htracks.outside place hplace with ⟨hsame, hkept⟩ | ⟨hleading, -, -, hmade⟩
      · rcases List.mem_cons.1 hother with rfl | hother
        · exact absurd hsame hchanged
        · rw [hkept]
          exact hbuilt.changed other hother place hchanged
      · -- Two tiers can make the same directory on the way to theirs.
        obtain ⟨foreign, hforeign, hcases⟩ := hseparate.alone_cases hchanged
        rcases hcases with hwithin | ⟨-, hdirectory⟩
        · have hne : (name, tier) ≠ (other, foreign) := by
            intro heq
            obtain ⟨-, rfl⟩ := Prod.mk.inj heq
            exact hplace hwithin
          have hnot := hseparate.not_within_of_ne hmem (mem_tiers_of_tier? hforeign) hne
            (.inr hleading)
          exact absurd hwithin hnot
        · rw [hmade, hdirectory]

/-- Building one more tier: it reports what it reports alone, and what it leaves is what it
leaves alone. -/
theorem Separate.build_built (hseparate : project.Separate start (project.Unsettled start))
    (hbuilt : project.Built start done state.files)
    (hagain : name ∈ done → ∀ entry ∈ project.settings.tiers,
      project.Unhindered start.here entry.2) :
    (name, ((project.build name).outcomeFrom state).1.mapError Error.message) =
        project.reportAlone start name ∧
      project.Built start (name :: done) ((project.build name).outcomeFrom state).2 := by
  cases htier : project.tier? name with
  | none =>
      rw [reportAlone, alone, outcomeFrom_build_of_none htier, outcomeFrom_build_of_none htier]
      exact ⟨rfl, hbuilt.cons_of_none htier⟩
  | some tier =>
      have halone : (project.buildFiles tier).outcomeFrom ⟨start, []⟩ =
          project.alone start name := by
        rw [alone, build_of_tier? htier]
      have hown (place : Place) (hplace : Within start.here (project.outputsOf tier) place) :
          state.files.node? place = start.node? place ∨ name ∈ done ∧
            state.files.node? place =
              ((project.buildFiles tier).outcomeFrom ⟨start, []⟩).2.node? place := by
        rw [halone]
        exact hbuilt.own_cases hseparate htier hplace
      have hmem := mem_tiers_of_tier? htier
      obtain ⟨hreport, htracks⟩ := hseparate.outcomeFrom_tracks hmem ⟨start, []⟩ state rfl
        hbuilt.around hown fun hdone => hagain hdone (name, tier) hmem
      rw [halone] at hreport htracks
      rw [build_of_tier? htier]
      exact ⟨by rw [reportAlone, hreport], hbuilt.cons_of_tracks hseparate htier htracks⟩

/-! ### Several tiers -/

/-- The build of a tier always ends with a result, which says how it went. -/
theorem exists_run_buildTier (project : Project) (name : String) (state : WorkState) :
    ∃ after, (project.buildTier name).run.run state =
        (.ok ⟨name, ((project.build name).outcomeFrom state).1⟩, after) ∧
      after.files = ((project.build name).outcomeFrom state).2 :=
  ⟨_, rfl, rfl⟩

/-- A run over several tiers, of which some may have been built before. -/
theorem Separate.run_buildTiers (hseparate : project.Separate start (project.Unsettled start))
    (hagain : (names ++ done).Nodup ∨ ∀ entry ∈ project.settings.tiers,
      project.Unhindered start.here entry.2)
    (hbuilt : project.Built start done state.files) :
    ∃ results after, (names.mapM project.buildTier).run.run state = (.ok results, after) ∧
      results.map TierResult.report = names.map (project.reportAlone start) ∧
      project.Built start (names ++ done) after.files := by
  induction names generalizing done state with
  | nil => exact ⟨[], state, rfl, rfl, hbuilt⟩
  | cons name rest ih =>
      have hname : name ∈ done → ∀ entry ∈ project.settings.tiers,
          project.Unhindered start.here entry.2 := by
        intro hdone
        refine hagain.resolve_left fun hnodup => ?_
        exact (List.nodup_cons.1 hnodup).1 (List.mem_append_right _ hdone)
      obtain ⟨hreport, hnext⟩ := hseparate.build_built hbuilt hname
      have hrest : (rest ++ name :: done).Nodup ∨ ∀ entry ∈ project.settings.tiers,
          project.Unhindered start.here entry.2 := by
        rwa [List.perm_middle.nodup_iff]
      obtain ⟨between, hrun, hfiles⟩ := project.exists_run_buildTier name state
      rw [← hfiles] at hnext
      obtain ⟨results, after, hresults, hreports, hlast⟩ := ih hrest hnext
      refine ⟨⟨name, ((project.build name).outcomeFrom state).1⟩ :: results, after, ?_, ?_,
        hlast.congr fun other => ?_⟩
      · rw [List.mapM_cons, Work.run_bind_of_ok _ hrun, Work.run_bind_of_ok _ hresults]
        rfl
      · rw [List.map_cons, List.map_cons, hreports, ← hreport, TierResult.report]
      · exact List.perm_middle.mem_iff

/-- Results with the reports of the names that were asked for still have them when one result
is picked for each name. -/
theorem map_report_filterMap {results : List TierResult}
    (hreports : results.map TierResult.report = names.map (project.reportAlone start)) :
    (names.filterMap fun name => results.reverse.find? fun result => result.tier == name).map
      TierResult.report = names.map (project.reportAlone start) := by
  have hpicked : ∀ name ∈ names,
      (results.reverse.find? fun result => result.tier == name).map TierResult.report =
        some (project.reportAlone start name) := by
    intro name hname
    have hmem : project.reportAlone start name ∈ results.map TierResult.report := by
      rw [hreports]
      exact List.mem_map_of_mem hname
    obtain ⟨result, hresult, hreport⟩ := List.mem_map.1 hmem
    have htier : result.tier = name := (Prod.mk.inj hreport).1
    cases hfound : results.reverse.find? fun result => result.tier == name with
    | none =>
        have hnone := List.find?_eq_none.1 hfound result (List.mem_reverse.2 hresult)
        exact absurd (beq_iff_eq.2 htier) hnone
    | some found =>
        have hfoundTier : found.tier = name := by simpa using List.find?_some hfound
        have hfoundMem : found.report ∈ names.map (project.reportAlone start) := by
          rw [← hreports]
          exact List.mem_map_of_mem (List.mem_reverse.1 (List.mem_of_find?_eq_some hfound))
        obtain ⟨other, -, hother⟩ := List.mem_map.1 hfoundMem
        have hothername : other = name := (Prod.mk.inj hother).1.trans hfoundTier
        rw [Option.map_some, ← hother, hothername]
  rw [List.map_filterMap, ← List.filterMap_eq_map]
  exact List.filterMap_congr hpicked

/-- The reports of a run over several tiers. -/
def reports (project : Project) (chosen : Option (List String)) (parallel : Option Bool)
    (files : FileTree) : Except Error (List (String × Except String (List Path))) :=
  ((project.buildAll chosen parallel).start files).1.result.map (List.map TierResult.report)

/-- The files after a run over several tiers. -/
def filesAfter (project : Project) (chosen : Option (List String)) (parallel : Option Bool)
    (files : FileTree) : FileTree :=
  ((project.buildAll chosen parallel).start files).2

/-- A run over all tiers that are asked for, side by side or not. -/
theorem Separate.run_buildAll (hseparate : project.Separate start (project.Unsettled start))
    {chosen : Option (List String)} (parallel : Option Bool)
    (hagain : (chosen.getD project.tierNames ++ done).Nodup ∨ ∀ entry ∈ project.settings.tiers,
      project.Unhindered start.here entry.2)
    (hbuilt : project.Built start done tree) :
    project.reports chosen parallel tree =
        .ok ((chosen.getD project.tierNames).map (project.reportAlone start)) ∧
      project.Built start (chosen.getD project.tierNames ++ done)
        (project.filesAfter chosen parallel tree) := by
  have hrunning : ∃ results after,
      ((chosen.getD project.tierNames).mapM project.buildTier).run.run ⟨tree, []⟩ =
          (.ok results, after) ∧
        results.map TierResult.report =
          (chosen.getD project.tierNames).map (project.reportAlone start) ∧
        project.Built start (chosen.getD project.tierNames ++ done) after.files :=
    hseparate.run_buildTiers hagain hbuilt
  obtain ⟨results, after, hrun, hreports, hlast⟩ := hrunning
  have hall : (project.buildAll chosen parallel).run.run ⟨tree, []⟩ =
      (.ok (if parallel.getD project.settings.build.parallel then
        (chosen.getD project.tierNames).filterMap fun name =>
          results.reverse.find? fun result => result.tier == name
      else
        results), after) := by
    refine (Work.run_bind_of_ok _ hrun).trans ?_
    split <;> rfl
  rw [reports, filesAfter, Work.start, hall]
  refine ⟨congrArg Except.ok ?_, hlast⟩
  split
  · exact map_report_filterMap hreports
  · exact hreports

/-! ### Orders and repetitions -/

/-- The order in which tiers are built does not matter: the files are the same in the end,
and each tier has the same report. -/
theorem buildAll_perm (hseparate : project.Separate start (project.Unsettled start))
    {others : List String} (hnodup : names.Nodup) (hperm : names.Perm others)
    (parallel parallel' : Option Bool) :
    FileTree.Same (project.filesAfter (some names) parallel start)
        (project.filesAfter (some others) parallel' start) ∧
      ∃ report : String → Except String (List Path),
        project.reports (some names) parallel start =
            .ok (names.map fun name => (name, report name)) ∧
          project.reports (some others) parallel' start =
            .ok (others.map fun name => (name, report name)) := by
  have hstart : project.Built start [] start := .nil hseparate.wellFormed
  obtain ⟨hreports, hbuilt⟩ := hseparate.run_buildAll parallel
    (.inl (by rwa [List.append_nil] : ((some names).getD project.tierNames ++ []).Nodup)) hstart
  obtain ⟨hreports', hbuilt'⟩ := hseparate.run_buildAll parallel'
    (.inl (by rw [List.append_nil]; exact hperm.nodup_iff.1 hnodup :
      ((some others).getD project.tierNames ++ []).Nodup)) hstart
  refine ⟨hbuilt.same hbuilt' fun name => ?_,
    fun name => (project.alone start name).1.mapError Error.message, hreports, hreports'⟩
  rw [List.append_nil, List.append_nil]
  exact hperm.mem_iff

/-- A project with some tiers. -/
def sample (tiers : List (String × Tier)) : Project where
  root := ⟨"/", ["p"]⟩
  settings := {
    build := { logLevel := .silent }
    css := { buildPath := "dist" }
    figma := {}
    tiers
    environment := .development }

/-- Two tiers that share a file; one has a mode. -/
def sharing : Project := sample
  [("base", { name := "base", sources := ["tokens/*.json"] }),
    ("docs", {
      name := "docs"
      included := ["tokens/*.json"]
      modes := [("color", [("dark", "modes/dark.json")])] })]

def sharedFiles : FileTree where
  entries := [(["p"], .directory), (["p", "tokens"], .directory),
    (["p", "tokens", "a.json"], .text "\x7b\x7d"), (["p", "modes"], .directory),
    (["p", "modes", "dark.json"], .text "\x7b\x7d")]
  here := ["p"]

theorem separate_sharing : sharing.Separate sharedFiles (sharing.Unsettled sharedFiles) where
  wellFormed := wellFormed_of_entries (by decide) (by decide) (by decide)
  apart := by decide
  inside := by decide
  patterns := by
    have htokens : (FileTree.patternIn sharing.root "tokens/*.json").Avoids sharedFiles.here
        (Within sharedFiles.here sharing.outputs) (sharing.Unsettled sharedFiles) := by
      have hsteps : (FileTree.patternIn sharing.root "tokens/*.json").steps =
          ["p", "tokens"].map .name ++ [.wild false (NamePart.ofText "*.json")] := by
        decide +kernel
      refine Pattern.avoids_of_names hsteps (by decide) (by decide) (by decide) (not_within_append ?_)
      decide
    have hall : ∀ entry ∈ sharing.settings.tiers, ∀ text ∈ entry.2.included ++ entry.2.sources,
        text = "tokens/*.json" := by decide
    intro entry hentry text htext
    rw [hall entry hentry text htext]
    exact htokens
  modeFiles := modeFiles_avoid (by decide)

theorem buildAll_perm_sharing :
    sharing.Separate sharedFiles (sharing.Unsettled sharedFiles) ∧ ["base", "docs"].Nodup ∧
      ["base", "docs"].Perm ["docs", "base"] ∧
      FileTree.Same (sharing.filesAfter (some ["base", "docs"]) none sharedFiles)
        (sharing.filesAfter (some ["docs", "base"]) none sharedFiles) ∧
      ∃ report : String → Except String (List Path),
        sharing.reports (some ["base", "docs"]) none sharedFiles =
            .ok (["base", "docs"].map fun name => (name, report name)) ∧
          sharing.reports (some ["docs", "base"]) none sharedFiles =
            .ok (["docs", "base"].map fun name => (name, report name)) :=
  ⟨separate_sharing, by decide, .swap _ _ _,
    buildAll_perm separate_sharing (by decide) (.swap _ _ _) none none⟩

/-- The text with which a tier fails in a run over some tiers. -/
def errorOf (project : Project) (chosen : Option (List String)) (files : FileTree)
    (name : String) : Option String :=
  match ((project.reports chosen (some false) files).toOption.getD []).lookup name with
  | some (.error text) => some text
  | _ => none

/-- A tier whose directory has another one above it that is missing at first. -/
def late : String × Tier :=
  ("b", { name := "x/b", modes := [("color", [("m", "none.json")])] })

/-- The first tier names a mode file where the second one makes a directory, or beyond it. -/
def crossing (file : String) : Project :=
  sample [("a", { name := "a", modes := [("color", [("light", file)])] }), late]

/-- The sources of the first tier are found through a directory that the second one makes. -/
def climbing (pattern : String) : Project := sample
  [("a", { name := "a", sources := [pattern], modes := [("color", [("light", "none.json")])] }), late]

/-- The directory of the second tier is reached through that of the first one. -/
def winding : Project := sample
  [("a", { name := "a", modes := [("color", [("light", "none.json")])] }),
    ("b", {
      name := "a/color/primitive.css.tmp/../../../b"
      modes := [("color", [("m", "none.json")])] })]

/-- Files without tokens. -/
def hollow : FileTree where
  entries := [(["p"], .directory), (["p", "m.json"], .text ""), (["p", "primitive"], .directory),
    (["p", "primitive", "t.json"], .text ""), (["p", "y.json"], .text "\x7b\x7d")]
  here := ["p"]

/-- Projects whose tiers do come in each other's way. -/
def meeting : List Project :=
  [crossing "dist/x", crossing "dist/x/../../m.json", climbing "dist/x/../../primitive/t.json",
    climbing "dist/x/b/color/../../../../primitive/t.json", winding]

theorem wellFormed_hollow : hollow.WellFormed :=
  wellFormed_of_entries (by decide) (by decide) (by decide)

theorem tidy_meeting : ∀ project ∈ meeting, project.Tidy hollow := by
  intro project hproject
  apply tidy_of_literal wellFormed_hollow
  all_goals
    revert project
    decide

/-- That the directories lie apart and nothing inside them is read is not enough. -/
theorem error_depends_on_order :
    (∀ project ∈ meeting, project.Tidy hollow) ∧
      (meeting.map fun project => project.errorOf (some ["a", "b"]) hollow "a") =
        [some "tier a, category color: /p/dist/x\nMode file for 'light' not found",
          some "tier a, category color: /p/dist/x/../../m.json\nMode file for 'light' not found",
          some "tier a, category color: /p/none.json\nMode file for 'light' not found",
          some "tier a, category color: /p/none.json\nMode file for 'light' not found",
          some "tier a, category color: /p/none.json\nMode file for 'light' not found"] ∧
      (meeting.map fun project => project.errorOf (some ["b", "a"]) hollow "a") =
        [some "OS error", some "/p/dist/x/../../m.json\nInvalid JSON",
          some "/p/dist/x/../../primitive/t.json\nInvalid JSON",
          some "/p/dist/x/b/color/../../../../primitive/t.json\nInvalid JSON", some "OS error"] :=
  ⟨tidy_meeting, by decide +kernel, by decide +kernel⟩

/-- Building the same tiers again changes no file and gives the same reports. -/
theorem buildAll_again (hseparate : project.Separate start (project.Unsettled start))
    (hunhindered : ∀ entry ∈ project.settings.tiers, project.Unhindered start.here entry.2)
    (chosen : Option (List String)) (parallel : Option Bool) :
    FileTree.Same
        (project.filesAfter chosen parallel (project.filesAfter chosen parallel start))
        (project.filesAfter chosen parallel start) ∧
      ∃ found, project.reports chosen parallel start = .ok found ∧
        project.reports chosen parallel (project.filesAfter chosen parallel start) = .ok found := by
  obtain ⟨hreports, hbuilt⟩ := hseparate.run_buildAll parallel (.inr hunhindered)
    (.nil hseparate.wellFormed)
  obtain ⟨hreports', hbuilt'⟩ := hseparate.run_buildAll parallel (.inr hunhindered) hbuilt
  refine ⟨hbuilt'.same hbuilt fun name => ?_, _, hreports, hreports'⟩
  simp

theorem unhindered_sharing : ∀ entry ∈ sharing.settings.tiers,
    sharing.Unhindered sharedFiles.here entry.2 := by
  decide

theorem buildAll_again_sharing :
    sharing.Separate sharedFiles (sharing.Unsettled sharedFiles) ∧
      (∀ entry ∈ sharing.settings.tiers, sharing.Unhindered sharedFiles.here entry.2) ∧
      FileTree.Same
        (sharing.filesAfter none none (sharing.filesAfter none none sharedFiles))
        (sharing.filesAfter none none sharedFiles) ∧
      ∃ found, sharing.reports none none sharedFiles = .ok found ∧
        sharing.reports none none (sharing.filesAfter none none sharedFiles) = .ok found :=
  ⟨separate_sharing, unhindered_sharing,
    buildAll_again separate_sharing unhindered_sharing none none⟩

/-- A mode whose directory is the file that is written beside another one. -/
def beside : Project := sample
  [("a", {
      name := "a"
      modes := [("color", [("primitive.css.tmp/y", "y.json"), ("light", "none.json")])] })]

theorem tidy_beside : beside.Tidy hollow :=
  tidy_of_literal wellFormed_hollow (by decide) (by decide) (by decide)
    (by decide)

/-- The same projects, and one with a single tier, do not come to the same again. -/
theorem error_depends_on_earlier_run :
    (∀ project ∈ beside :: meeting, project.Tidy hollow) ∧
      ((beside :: meeting).map fun project => project.errorOf none hollow "a") =
        [some "tier a, category color: /p/none.json\nMode file for 'light' not found",
          some "tier a, category color: /p/dist/x\nMode file for 'light' not found",
          some "tier a, category color: /p/dist/x/../../m.json\nMode file for 'light' not found",
          some "tier a, category color: /p/none.json\nMode file for 'light' not found",
          some "tier a, category color: /p/none.json\nMode file for 'light' not found",
          some "tier a, category color: /p/none.json\nMode file for 'light' not found"] ∧
      ((beside :: meeting).map fun project =>
          project.errorOf none (project.filesAfter none (some false) hollow) "a") =
        [some "OS error", some "OS error", some "/p/dist/x/../../m.json\nInvalid JSON",
          some "/p/dist/x/../../primitive/t.json\nInvalid JSON",
          some "/p/dist/x/b/color/../../../../primitive/t.json\nInvalid JSON", some "OS error"] :=
  ⟨List.forall_mem_cons.2 ⟨tidy_beside, tidy_meeting⟩, by decide +kernel, by decide +kernel⟩

end DesignTokens.Project
