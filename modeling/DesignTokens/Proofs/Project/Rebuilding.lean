import DesignTokens.Proofs.Project.Readings
import DesignTokens.Proofs.Text

/-!
# Building a tier again

A tier that is built from a tree around the first one comes to what it would have come to
from the first one: the same outcome, and the same files in its output directories. It does
not matter whether these directories still hold what they held at first, or what an earlier
build of the tier left there.
-/

namespace DesignTokens

namespace FileTree

variable {first second tree : FileTree} {directory : Path} {place : Place} {excluded : String}

/-- The names of a stylesheet that counts. -/
def IsSheet (excluded : String) (names : List String) : Prop :=
  (names.getLast?.getD "").endsWith ".css" ∧ names.getLast?.getD "" ≠ excluded

instance (excluded : String) (names : List String) : Decidable (IsSheet excluded names) :=
  inferInstanceAs (Decidable (_ ∧ _))

/-- The places of the stylesheets below a directory. -/
def sheetPlaces (tree : FileTree) (place : Place) (excluded : String) : List Place :=
  (tree.entries.filter fun entry => entry.2 ≠ .directory ∧ place <+: entry.1 ∧
    IsSheet excluded (entry.1.drop place.length)).map Prod.fst

theorem mem_sheetPlaces (htree : tree.WellFormed) {other : Place} :
    other ∈ tree.sheetPlaces place excluded ↔
      tree.HasFile other ∧ place <+: other ∧ IsSheet excluded (other.drop place.length) := by
  simp only [sheetPlaces, List.mem_map, List.mem_filter, decide_eq_true_eq, HasFile]
  constructor
  · rintro ⟨⟨other, node⟩, ⟨hmem, hfile, hbelow, hsheet⟩, rfl⟩
    exact ⟨⟨node, (htree.mem_entries_iff.1 hmem).2, hfile⟩, hbelow, hsheet⟩
  · rintro ⟨⟨node, hnode, hfile⟩, hbelow, hsheet⟩
    have hother : other ≠ [] := by
      rintro rfl
      obtain rfl := Option.some.inj hnode
      exact hfile rfl
    exact ⟨(other, node), ⟨htree.mem_entries_iff.2 ⟨hother, hnode⟩, hfile, hbelow, hsheet⟩, rfl⟩

theorem result_stylesheets (hlocate : tree.locate directory = .ok place)
    (hnode : tree.node? place = some .directory) :
    (tree.stylesheets directory excluded).result =
      .ok (((tree.sheetPlaces place excluded).map fun other =>
        "/".intercalate (other.drop place.length)).mergeSort fun a b => decide (a ≤ b)) := by
  have hdirectory := (isDirectory_iff hlocate).2 hnode
  simp only [stylesheets, hdirectory, hlocate, Traced.result_pure]
  congr 2
  rw [sheetPlaces, filesBelow]
  induction tree.entries with
  | nil => rfl
  | cons entry rest ih =>
      obtain ⟨names, node⟩ := entry
      by_cases hbelow : node ≠ .directory ∧ place <+: names
      · rw [List.filterMap_cons_some (b := (names.drop place.length, node)) (by simpa using hbelow)]
        by_cases hsheet : IsSheet excluded (names.drop place.length)
        · rw [List.filterMap_cons_some (b := "/".intercalate (names.drop place.length))
              (by simpa [IsSheet] using hsheet),
            List.filter_cons_of_pos (by simpa [hsheet] using hbelow), List.map_cons, List.map_cons, ih]
        · rw [List.filterMap_cons_none (by simpa [IsSheet] using hsheet),
            List.filter_cons_of_neg (by simp [hsheet]), ih]
      · rw [List.filterMap_cons_none (by simpa using hbelow),
          List.filter_cons_of_neg (by simp_all), ih]

/-- Two directories with the same stylesheets give the same list of them. -/
theorem result_stylesheets_eq (hfirst : first.WellFormed) (hsecond : second.WellFormed)
    (hlocate : first.locate directory = .ok place) (hlocate' : second.locate directory = .ok place)
    (hnode : first.node? place = some .directory) (hnode' : second.node? place = some .directory)
    (hsame : ∀ other, place <+: other → IsSheet excluded (other.drop place.length) →
      (first.HasFile other ↔ second.HasFile other)) :
    (first.stylesheets directory excluded).result =
      (second.stylesheets directory excluded).result := by
  have hnodup {tree : FileTree} (htree : tree.WellFormed) :
      (tree.sheetPlaces place excluded).Nodup :=
    htree.nodup.sublist (List.filter_sublist.map _)
  have hperm : (first.sheetPlaces place excluded).Perm (second.sheetPlaces place excluded) := by
    rw [List.perm_ext_iff_of_nodup (hnodup hfirst) (hnodup hsecond)]
    intro other
    rw [mem_sheetPlaces hfirst, mem_sheetPlaces hsecond]
    constructor
    · rintro ⟨hfile, hbelow, hsheet⟩
      exact ⟨(hsame other hbelow hsheet).1 hfile, hbelow, hsheet⟩
    · rintro ⟨hfile, hbelow, hsheet⟩
      exact ⟨(hsame other hbelow hsheet).2 hfile, hbelow, hsheet⟩
  rw [result_stylesheets hlocate hnode, result_stylesheets hlocate' hnode']
  congr 1
  exact Text.mergeSort_eq_of_perm (hperm.map _)

/-- The last name below the directory is that of the sheet. -/
theorem IsSheet.last {before : Place} {name : String} {count : Nat}
    (hsheet : IsSheet excluded ((before ++ [name]).drop count)) :
    name.toList.getLast? = some 's' ∧ name ≠ excluded := by
  obtain ⟨hends, hexcluded⟩ := hsheet
  have hcount : count ≤ before.length := by
    by_contra hlong
    have hnil : (before ++ [name]).drop count = [] := by
      rw [List.drop_eq_nil_iff]
      simp
      omega
    rw [hnil] at hends
    revert hends
    decide +kernel
  rw [List.drop_append_of_le_length hcount, List.getLast?_append] at hends hexcluded
  simp only [List.getLast?_singleton, Option.some_or, Option.getD_some] at hends hexcluded
  refine ⟨?_, hexcluded⟩
  rw [String.endsWith_eq_endsWith_toSlice, String.Slice.endsWith_string_iff,
    String.copy_toSlice] at hends
  obtain ⟨lead, hlead⟩ := hends
  rw [← hlead, List.getLast?_append]
  rfl

end FileTree

namespace Project

open DesignTokens.Path Stylesheet FileTree

variable {project : Project} {start first second other last : FileTree} {key : String} {tier : Tier}
  {again : Prop} {opened : Place → Prop}

/-- One of the first stylesheets is written below the directory for all of them. -/
theorem exists_mem_firstSheets (project : Project) (tier : Tier) :
    ∃ path ∈ project.firstSheets tier, ∃ more,
      path.parent = (project.sheetDirectory tier).extend more := by
  by_cases hmoded : Entries.contains tier.modes "color"
  · obtain ⟨modes, hmodes, hcolor⟩ := List.mem_map.1 ((Entries.isSome_get?_iff _ _).1 hmoded)
    refine ⟨_, List.mem_append_left _ (List.mem_map_of_mem hmodes), ["color"], ?_⟩
    rw [hcolor]
    exact parent_below (by rfl)
  · have hplain : "color" ∈ plainCategories tier :=
      List.mem_filter.2 ⟨by decide, by simpa using hmoded⟩
    refine ⟨_, List.mem_append_right _ (List.mem_map_of_mem hplain), [], ?_⟩
    rw [extend_nil]
    exact parent_below (by rfl)

theorem name_of_mem_lastTargets {path : Path} (hpath : path ∈ project.lastTargets tier) :
    path.name = importSheetName ∨ path.name.toList.getLast? = some 'n' := by
  have hname (directory : Path) {text : String} (htext : ofText text = ⟨"", [text]⟩) :
      (directory / text : Path).name = text := by
    change (directory.below (ofText text)).name = text
    rw [htext]
    simp [below, isAbsolute, name]
  rw [lastTargets, documents, List.mem_cons] at hpath
  rcases hpath with rfl | hpath
  · exact .inl (hname _ (by rfl))
  · split at hpath
    · rcases List.mem_cons.1 hpath with rfl | hpath
      · rw [hname _ (by rfl)]
        exact .inr (by decide)
      · obtain rfl := List.mem_singleton.1 hpath
        rw [hname _ (by rfl)]
        exact .inr (by decide)
    · simp at hpath

/-- In both runs the same stylesheets lie below the directory. The files of the first run that
are new since are its last ones, and none of them counts as a stylesheet. -/
theorem hasFile_iff_of_isSheet
    (htracks : Tracks (project.ground start tier) again start other last first second)
    (hkeeps : again → Keeps (project.ground start tier) opened first last)
    (hopened : ∀ place, opened place →
      ∃ path ∈ project.lastTargets tier, place = path.place start.here)
    {place : Place} (hbelow : (project.sheetDirectory tier).place start.here <+: place)
    (hsheet : IsSheet importSheetName
      (place.drop ((project.sheetDirectory tier).place start.here).length)) :
    first.HasFile place ↔ second.HasFile place := by
  have hnames : place.drop ((project.sheetDirectory tier).place start.here).length ≠ [] := by
    intro hnil
    rw [hnil] at hsheet
    revert hsheet
    decide +kernel
  have hne : place ≠ [] := by
    rintro rfl
    exact hnames List.drop_nil
  obtain ⟨before, name, rfl⟩ : ∃ before name, place = before ++ [name] :=
    ⟨_, _, (List.dropLast_append_getLast hne).symm⟩
  obtain ⟨hends, hindex⟩ := hsheet.last
  have hown : (project.ground start tier).own (before ++ [name]) := by
    refine ⟨_, List.mem_cons_self, hbelow, fun heq => hnames ?_⟩
    rw [heq, List.drop_length]
  rcases htracks.own _ hown with hsame | ⟨hagain, hlast⟩
  · rw [hasFile_congr hsame]
  · rw [hasFile_congr hlast]
    constructor
    · intro hfile
      refine ((hkeeps hagain).file _ hfile).resolve_right ?_
      rintro ⟨path, -, hplace⟩
      rw [temporaryPlace_eq] at hplace
      have hname := List.singleton_injective (List.append_inj' hplace rfl).2
      rw [hname] at hends
      simp [FileTree.temporaryEnding] at hends
    · intro hfile
      by_contra hnew
      obtain ⟨path, hpath, hplace⟩ := hopened _ ((hkeeps hagain).fresh _ hnew hfile)
      have htarget : path ∈ project.targets tier := List.mem_append_right _ hpath
      rw [(isTarget_of_mem_targets htarget).namesFile.place_eq] at hplace
      have hname := List.singleton_injective (List.append_inj' hplace rfl).2
      rcases name_of_mem_lastTargets hpath with h | h
      · exact hindex (hname.trans h)
      · rw [← hname, hends] at h
        simp at h

/-- In both runs the sheet that imports the others has the same text. -/
theorem result_importText_eq
    (htracks : Tracks (project.ground start tier) again start other last first second)
    (hkeeps : again → Keeps (project.ground start tier) opened first last)
    (hopened : ∀ place, opened place →
      ∃ path ∈ project.lastTargets tier, place = path.place start.here)
    (hway : ∀ place ∈ (project.sheetDirectory tier).way start.here,
      first.node? place = some .directory ∧ second.node? place = some .directory) :
    (project.importText tier first).result = (project.importText tier second).result := by
  have hlocated {tree : FileTree} (htree : tree.WellFormed) (hhere : tree.here = start.here)
      (hdirectories : ∀ place ∈ (project.sheetDirectory tier).way start.here,
        tree.node? place = some .directory) :
      tree.locate (project.sheetDirectory tier) =
          .ok ((project.sheetDirectory tier).place start.here) ∧
        tree.node? ((project.sheetDirectory tier).place start.here) = some .directory := by
    rw [← hhere] at hdirectories ⊢
    have hstart := htree.node?_start (project.sheetDirectory tier)
    exact ⟨locateFrom_eq_goal hstart hdirectories, node?_goal hstart hdirectories⟩
  obtain ⟨hlocate, hnode⟩ :=
    hlocated htracks.wellFormed.1 htracks.here.1 fun place h => (hway place h).1
  obtain ⟨hlocate', hnode'⟩ :=
    hlocated htracks.wellFormed.2 htracks.here.2 fun place h => (hway place h).2
  have hsheets := result_stylesheets_eq htracks.wellFormed.1 htracks.wellFormed.2 hlocate hlocate'
    hnode hnode' fun place hbelow hsheet =>
      hasFile_iff_of_isSheet htracks hkeeps hopened hbelow hsheet
  simp only [importText, importSheet, Traced.result_bind, hsheets]

/-- Around the first tree the ways to a tier begin alike. -/
theorem Around.startsAlike (hseparate : project.Separate start (project.Unsettled start))
    (htier : (key, tier) ∈ project.settings.tiers) (haround : project.Around start other) :
    StartsAlike (project.ground start tier) start other := by
  intro place hway hown
  have hwithin : ¬ Within start.here project.outputs place := fun h =>
    hown (hseparate.own_of_leading htier hway h)
  rcases haround.outside place hwithin with hsame | ⟨-, hnone, hdirectory⟩
  · exact .inl hsame
  · exact .inr ⟨hnone, hdirectory⟩

/-- What was written before the import sheet stays, and what is written after it is new only
where the last files are. -/
theorem TierScripts.keeps_head (scripts : TierScripts project start tier)
    (hstart : start.WellFormed) (hunhindered : project.Unhindered start.here tier)
    {state : WorkState} (hstate : state.files = start) :
    Keeps (project.ground start tier)
      (fun place => ∃ path ∈ project.lastTargets tier, place = path.place start.here)
      (start.writeAll scripts.head.writes).2 ((project.buildFiles tier).outcomeFrom state).2 := by
  obtain ⟨hwellFormed, hhere⟩ : (start.writeAll scripts.head.writes).2.WellFormed ∧ _ :=
    wellFormed_writeAll hstart
  rw [scripts.outcome state (by rw [hstate]; exact .refl hstart), hstate,
    ← scripts.head.files_run start]
  rw [← scripts.head.files_run start] at hwellFormed hhere
  rcases hrun : scripts.head.run start with ⟨error | sheets, after⟩
  · exact .refl _
  · rw [hrun] at hwellFormed hhere
    simp only
    cases (project.importText tier after).result with
    | error error => exact .refl _
    | ok text =>
        rw [Script.files_run]
        have hrest : Keeps (project.ground start tier)
            (fun place => ∃ write ∈ (scripts.rest sheets text).writes,
              place = write.1.place start.here) after
            (after.writeAll (scripts.rest sheets text).writes).2 := by
          refine keeps_writeAll hwellFormed hhere fun write hwrite => ?_
          exact hunhindered.frees
            (List.mem_append_right _ (scripts.rest_mem sheets text write hwrite))
        refine hrest.mono ?_
        rintro place ⟨write, hwrite, rfl⟩
        exact ⟨write.1, scripts.rest_mem sheets text write hwrite, rfl⟩

/-- Once the first stylesheets are written there are directories on the way to them. -/
theorem TierScripts.directory_of_head (scripts : TierScripts project start tier)
    {after : FileTree} {sheets : Sheets} (htree : first.WellFormed)
    (hhere : first.here = start.here) (hrun : scripts.head.run first = (.ok sheets, after))
    {place : Place} (hplace : place ∈ (project.sheetDirectory tier).way start.here) :
    after.node? place = some .directory := by
  obtain ⟨hwrites, houtcome⟩ := Script.run_eq_ok hrun
  obtain ⟨path, hpath, more, hparent⟩ := project.exists_mem_firstSheets tier
  have hway : place ∈ path.parent.way first.here := by
    rw [hparent, way_extend, hhere]
    exact List.mem_append_left _ hplace
  have hdone := directory_of_writeAll htree (by rw [hwrites]) (scripts.head_must sheets houtcome path hpath) hway
  rwa [hwrites] at hdone

/-- A script that writes files of the tier takes both runs on and comes to the same in both. Where
a file cannot be written, how the operating system words it does not count. -/
theorem Separate.run_tracks {α : Type}
    (hseparate : project.Separate start (project.Unsettled start))
    (htier : (key, tier) ∈ project.settings.tiers) (haround : project.Around start other)
    (hunhindered : again → project.Unhindered start.here tier) (script : Script α)
    (hmem : ∀ write ∈ script.writes, write.1 ∈ project.targets tier)
    (htracks : Tracks (project.ground start tier) again start other last first second)
    (hkeeps : again → Keeps (project.ground start tier) opened (script.run first).2 last) :
    (script.run first).1.mapError Error.message = (script.run second).1.mapError Error.message ∧
      Tracks (project.ground start tier) again start other last (script.run first).2
        (script.run second).2 := by
  simp only [Script.files_run] at hkeeps ⊢
  obtain ⟨hdone, hlast⟩ := htracks.writeAll (haround.startsAlike hseparate htier)
    (fun write hwrite => hseparate.holds htier (hmem write hwrite))
    (fun hagain write hwrite => (hunhindered hagain).frees (hmem write hwrite)) hkeeps
  rw [Script.mapError_run, Script.mapError_run]
  exact ⟨by simp only [hdone], hlast⟩

/-- A tier that is built from a tree around the first one comes to what it comes to from the
first one, and so do its output directories. -/
theorem Separate.outcomeFrom_tracks (hseparate : project.Separate start (project.Unsettled start))
    (htier : (key, tier) ∈ project.settings.tiers) (state later : WorkState)
    (hstate : state.files = start) (haround : project.Around start later.files)
    (hown : ∀ place, Within start.here (project.outputsOf tier) place →
      later.files.node? place = start.node? place ∨
        again ∧ later.files.node? place =
          ((project.buildFiles tier).outcomeFrom state).2.node? place)
    (hunhindered : again → project.Unhindered start.here tier) :
    ((project.buildFiles tier).outcomeFrom state).1.mapError Error.message =
        ((project.buildFiles tier).outcomeFrom later).1.mapError Error.message ∧
      Tracks (project.ground start tier) again start later.files
        ((project.buildFiles tier).outcomeFrom state).2
        ((project.buildFiles tier).outcomeFrom state).2
        ((project.buildFiles tier).outcomeFrom later).2 := by
  obtain ⟨scripts⟩ := hseparate.exists_tierScripts htier
  have hkeeps (hagain : again) :=
    scripts.keeps_head hseparate.wellFormed (hunhindered hagain) hstate
  generalize hlast : ((project.buildFiles tier).outcomeFrom state).2 = last at hown hkeeps ⊢
  have hbefore : Tracks (project.ground start tier) again start later.files last start
      later.files :=
    ⟨⟨hseparate.wellFormed, haround.wellFormed⟩, ⟨rfl, haround.here⟩, hown,
      fun _ _ => .inl ⟨rfl, rfl⟩⟩
  have hhead := hseparate.run_tracks htier haround hunhindered scripts.head scripts.head_mem
    hbefore (by rwa [Script.files_run])
  rw [scripts.outcome state (by rw [hstate]; exact .refl hseparate.wellFormed), hstate] at hlast ⊢
  rw [scripts.outcome later haround]
  rcases hfirst : scripts.head.run start with ⟨error | sheets, after⟩ <;>
    rcases hsecond : scripts.head.run later.files with ⟨error' | sheets', after'⟩ <;>
    rw [hfirst, hsecond] at hhead <;> rw [hfirst] at hlast <;> simp only at hlast ⊢
  · rw [hlast] at hhead
    exact ⟨congrArg Except.error (Except.error.inj hhead.1), hhead.2⟩
  · exact absurd hhead.1 (by simp [Except.mapError])
  · exact absurd hhead.1 (by simp [Except.mapError])
  · obtain rfl : sheets = sheets' := Except.ok.inj hhead.1
    rw [← Script.files_run, hfirst] at hkeeps
    have htext := result_importText_eq hhead.2 hkeeps (fun _ h => h) fun place hplace =>
      ⟨scripts.directory_of_head hseparate.wellFormed rfl hfirst hplace,
        scripts.directory_of_head haround.wellFormed haround.here hsecond hplace⟩
    rw [← htext]
    cases himport : (project.importText tier after).result with
    | error error =>
        rw [himport] at hlast
        obtain rfl : after = last := hlast
        exact ⟨rfl, hhead.2⟩
    | ok text =>
        replace hlast : ((scripts.rest sheets text).run after).2 = last := by rwa [himport] at hlast
        have hkept (_ : again) : Keeps (project.ground start tier) (fun _ => True)
            ((scripts.rest sheets text).run after).2 last := by
          rw [hlast]
          exact .refl last
        have hrest := hseparate.run_tracks htier haround hunhindered (scripts.rest sheets text)
          (fun write hwrite => List.mem_append_right _ (scripts.rest_mem sheets text write hwrite))
          hhead.2 hkept
        rwa [hlast] at hrest

end Project

end DesignTokens
