import DesignTokens.Proofs.Project.Outputs
import DesignTokens.Proofs.Project.Scripts

/-!
# What builds read

All that a build reads before it looks at its own stylesheets is the same on all trees
around the first one. So up to there it follows a script, which depends on the first tree
alone.
-/

namespace DesignTokens

namespace Loading

/-- A dictionary depends on the texts of its files only. -/
theorem dictionaryOfFiles_congr {first second : FileTree} {paths : List Path}
    (hsame : ∀ path ∈ paths, first.readText path = second.readText path) (dtcg : Bool)
    (lead : Option String) :
    dictionaryOfFiles first paths dtcg lead = dictionaryOfFiles second paths dtcg lead := by
  have hfold (keys : Tree.Keys) (loaded : Loaded) : paths.foldlM (addFile first keys) loaded =
      paths.foldlM (addFile second keys) loaded := by
    induction paths generalizing loaded with
    | nil => rfl
    | cons path rest ih =>
        obtain ⟨hfirst, hrest⟩ := List.forall_mem_cons.1 hsame
        have hadd : addFile first keys loaded path = addFile second keys loaded path := by
          simp only [addFile, readTree, hfirst]
        rw [List.foldlM_cons, List.foldlM_cons, hadd]
        exact bind_congr fun loaded => ih hrest loaded
  simp only [dictionaryOfFiles, readTokens, hfold]

end Loading

namespace Project

open DesignTokens.Path Stylesheet

variable {project : Project} {start first second : FileTree} {key : String} {tier : Tier}
  {patterns reference : List String} {extra : List Path}

theorem resolve_congr (hhere : first.here = second.here) (path : Path) :
    first.resolve path = second.resolve path := by
  rw [FileTree.resolve, FileTree.resolve, hhere]

theorem modeFiles_congr (hhere : first.here = second.here) (project : Project) (tier : Tier) :
    project.modeFiles first tier = project.modeFiles second tier := by
  simp only [modeFiles, resolve_congr hhere]

/-- The patterns of a tier find the same files on both trees, with the same texts. -/
theorem Separate.exists_result_expand (hseparate : project.Separate start (project.Unsettled start))
    (htier : (key, tier) ∈ project.settings.tiers) (hfirst : project.Around start first)
    (hsecond : project.Around start second)
    (hpatterns : ∀ text ∈ patterns, text ∈ tier.included ++ tier.sources) :
    ∃ found, (first.expand project.root patterns).result = .ok found ∧
      (second.expand project.root patterns).result = .ok found ∧
      ∀ path ∈ found, first.readText path = second.readText path := by
  have hagree := hfirst.agreeBut hseparate.wellFormed hsecond
  have hfiles (place : Place) (hplace : project.Unsettled start place)
      (hfile : first.HasFile place ∨ second.HasFile place) :
      Within start.here project.outputs place :=
    hfile.elim (hfirst.within_of_hasFile hplace) (hsecond.within_of_hasFile hplace)
  have havoids (text : String) (htext : text ∈ patterns) :
      (FileTree.patternIn project.root text).Avoids first.here
        (Within start.here project.outputs) (project.Unsettled start) := by
    rw [hfirst.here]
    exact hseparate.patterns _ htier text (hpatterns text htext)
  have hfound := first.result_expand project.root patterns
  exact ⟨_, hfound, (hagree.result_expand_eq hfiles havoids).symm.trans hfound, fun path hpath =>
    hagree.readText_eq_of_mem_expand hfiles havoids hfound hpath⟩

theorem result_sourceFiles {files : FileTree} {included found : List Path}
    (hincluded : (files.expand project.root (tier.included ++ reference)).result = .ok included)
    (hfound : (files.expand project.root patterns).result = .ok found) :
    (project.sourceFiles files tier patterns extra reference).result =
      .ok (included, (found.filter fun path =>
        files.resolve path ∉ project.modeFiles files tier ∧ path ∉ included) ++ extra) := by
  simp only [sourceFiles, Traced.result_bind, hincluded, hfound]
  rfl

/-- The files of a tier are the same on both trees, and so are their texts. -/
theorem Separate.exists_result_sourceFiles
    (hseparate : project.Separate start (project.Unsettled start))
    (htier : (key, tier) ∈ project.settings.tiers) (hfirst : project.Around start first)
    (hsecond : project.Around start second) (hpatterns : ∀ text ∈ patterns, text ∈ tier.sources)
    (hreference : ∀ text ∈ reference, text ∈ tier.sources)
    (hextra : ∀ path ∈ extra, first.readText path = second.readText path) :
    ∃ included sources,
      (project.sourceFiles first tier patterns extra reference).result = .ok (included, sources) ∧
        (project.sourceFiles second tier patterns extra reference).result =
          .ok (included, sources) ∧
        ∀ path ∈ included ++ sources, first.readText path = second.readText path := by
  obtain ⟨included, hincluded, hincluded', hincludedTexts⟩ :=
    hseparate.exists_result_expand htier hfirst hsecond
      fun text htext => List.mem_append.2 ((List.mem_append.1 htext).imp_right (hreference text))
  obtain ⟨found, hfound, hfound', hfoundTexts⟩ :=
    hseparate.exists_result_expand htier hfirst hsecond
      fun text htext => List.mem_append_right _ (hpatterns text htext)
  have hhere := hfirst.here.trans hsecond.here.symm
  refine ⟨_, _, result_sourceFiles hincluded hfound, ?_, ?_⟩
  · rw [result_sourceFiles hincluded' hfound', modeFiles_congr hhere project tier]
    simp only [resolve_congr hhere]
  · rw [List.forall_mem_append, List.forall_mem_append]
    exact ⟨hincludedTexts, fun path hpath => hfoundTexts path (List.mem_filter.1 hpath).1, hextra⟩

theorem Separate.result_loadTier_eq (hseparate : project.Separate start (project.Unsettled start))
    (htier : (key, tier) ∈ project.settings.tiers) (hfirst : project.Around start first)
    (hsecond : project.Around start second) (hpatterns : ∀ text ∈ patterns, text ∈ tier.sources)
    (hreference : ∀ text ∈ reference, text ∈ tier.sources)
    (hextra : ∀ path ∈ extra, first.readText path = second.readText path) :
    (project.loadTier first tier patterns extra reference).result =
      (project.loadTier second tier patterns extra reference).result := by
  obtain ⟨included, sources, hresult, hresult', hsame⟩ :=
    hseparate.exists_result_sourceFiles htier hfirst hsecond hpatterns hreference hextra
  simp only [loadTier, Traced.result_bind, hresult, hresult']
  change (Traced.result (Loading.dictionaryOfFiles first (included ++ sources) _ _) >>= _) =
    (Traced.result (Loading.dictionaryOfFiles second (included ++ sources) _ _) >>= _)
  rw [Loading.dictionaryOfFiles_congr hsame]

/-! ### Work on one tier -/

theorem result_throw_bind {α β : Type} (error : Error) (next : α → Traced β) :
    ((throw error : Traced α) >>= next).result = .error error := rfl

theorem Separate.around_writeWhole (hseparate : project.Separate start (project.Unsettled start))
    (htier : (key, tier) ∈ project.settings.tiers) (files : FileTree) (path : Path)
    (content : String) (haround : project.Around start files) (hpath : path ∈ project.targets tier) :
    project.Around start (files.writeWhole path content).2 :=
  haround.writeWhole htier (hseparate.holds htier hpath) content

section Tier

variable (hseparate : project.Separate start (project.Unsettled start))
  (htier : (key, tier) ∈ project.settings.tiers)

include hseparate htier

theorem isScripted_writeSheet {path : Path} (hpath : path ∈ project.targets tier) (text : String) :
    Work.IsScripted (project.Around start) (· ∈ project.targets tier) [path]
      (project.writeSheet path text) := by
  have hkind := hseparate.around_writeWhole htier
  rw [← List.append_nil [path]]
  refine (Work.isScripted_write hpath text).bind hkind fun _ => ?_
  split
  · split
    · exact (Work.isScripted_note _).bind hkind fun _ => Work.isScripted_pure _
    · exact (Work.isScripted_throw _).bind hkind fun _ => Work.isScripted_pure _
  · exact Work.isScripted_pure _

theorem isScripted_buildPrimitives {modes : String × List (String × String)}
    (hmodes : modes ∈ tier.modes) :
    Work.IsScripted (project.Around start) (· ∈ project.targets tier)
      [sheetPath (project.sheetDirectory tier / modes.1) "primitive"]
      (project.buildPrimitives tier modes.1) := by
  have hkind := hseparate.around_writeWhole htier
  have hprimitive : ∀ text ∈ tier.primitiveSources, text ∈ tier.sources :=
    fun text htext => (List.mem_filter.1 htext).1
  have htarget : sheetPath (project.sheetDirectory tier / modes.1) "primitive" ∈
      project.targets tier := by
    refine List.mem_append_left _ (List.mem_append_left _ (List.mem_flatMap.2 ⟨modes, hmodes, ?_⟩))
    simp
  refine (Work.isScripted_reading fun first second hfirst hsecond => ?_).bind hkind fun text =>
    isScripted_writeSheet hseparate htier htarget text
  rw [Traced.result_bind, Traced.result_bind, hseparate.result_loadTier_eq htier hfirst hsecond
    hprimitive (by simp) (by simp)]

theorem isScripted_buildMode {modes : String × List (String × String)} (hmodes : modes ∈ tier.modes)
    {mode : String × String} (hmode : mode ∈ modes.2) :
    Work.IsScripted (project.Around start) (· ∈ project.targets tier) []
      (project.buildMode tier modes.1 mode.1 mode.2) := by
  have hkind := hseparate.around_writeWhole htier
  have hprimitive : ∀ text ∈ tier.primitiveSources, text ∈ tier.sources :=
    fun text htext => (List.mem_filter.1 htext).1
  have htarget : sheetPath (project.sheetDirectory tier / modes.1) mode.1 ∈
      project.targets tier := by
    refine List.mem_append_left _ (List.mem_append_left _ (List.mem_flatMap.2 ⟨modes, hmodes, ?_⟩))
    exact List.mem_map_of_mem (List.mem_cons_of_mem _ (List.mem_map_of_mem hmode))
  refine ((Work.isScripted_reading fun first second hfirst hsecond => ?_).bind hkind fun text =>
    isScripted_writeSheet hseparate htier htarget text).mono (by simp)
  have hagree := hfirst.agreeBut hseparate.wellFormed hsecond
  have havoids : (project.root / mode.2 : Path).Avoids first.here (project.Unsettled start) := by
    rw [hfirst.here]
    exact hseparate.modeFiles _ htier modes hmodes mode hmode
  rw [← hagree.isNone_at?_eq havoids]
  cases hnode : first.at? (project.root / mode.2) with
  | none => simp only [Option.isNone_none, if_true, result_throw_bind]
  | some node =>
      have hextra : ∀ path ∈ [(project.root / mode.2 : Path)],
          first.readText path = second.readText path := by
        simpa using (hagree.at?_eq_some havoids hnode).2
      have hload := hseparate.result_loadTier_eq htier hfirst hsecond
        (List.forall_mem_nil (· ∈ tier.sources)) hprimitive hextra
      simp only [Option.isNone_some, Bool.false_eq_true, if_false, Traced.result_bind, hload]

/-- The files of one category with modes: first the one for its primitives. -/
theorem isScripted_buildModes {modes : String × List (String × String)}
    (hmodes : modes ∈ tier.modes) :
    Work.IsScripted (project.Around start) (· ∈ project.targets tier)
      [sheetPath (project.sheetDirectory tier / modes.1) "primitive"]
      (project.buildModes tier modes.1 modes.2) := by
  have hkind := hseparate.around_writeWhole htier
  have hothers : Work.IsScripted (project.Around start) (· ∈ project.targets tier)
      (modes.2.flatMap fun _ => []) (modes.2.mapM fun mode =>
        project.buildMode tier modes.1 mode.1 mode.2) :=
    .mapM hkind fun mode hmode => isScripted_buildMode hseparate htier hmodes hmode
  refine ((isScripted_buildPrimitives hseparate htier hmodes).bind hkind fun primitives =>
    hothers.bind hkind fun others => Work.isScripted_pure (primitives :: others)).mono ?_
  simp

theorem isScripted_buildCategory {category : String} (hcategory : category ∈ plainCategories tier)
    (tokens : TierTokens) :
    Work.IsScripted (project.Around start) (· ∈ project.targets tier)
      [sheetPath (project.sheetDirectory tier) category]
      (project.buildCategory tier tokens category) := by
  have hkind := hseparate.around_writeWhole htier
  have htarget : sheetPath (project.sheetDirectory tier) category ∈ project.targets tier :=
    List.mem_append_left _ (List.mem_append_right _ (List.mem_map_of_mem hcategory))
  exact (Work.isScripted_reading fun _ _ _ _ => rfl).bind hkind fun text =>
    isScripted_writeSheet hseparate htier htarget text

end Tier

/-- What a tier has come to when its stylesheets are written. -/
structure Sheets where
  paths : List Path
  tokens : TierTokens

/-- The first part of a build: all stylesheets but the one that imports the others. -/
def buildSheets (project : Project) (tier : Tier) : Work Sheets := do
  let moded ← tier.modes.mapM fun (category, modes) => project.buildModes tier category modes
  let tokens ← Work.reading fun files => project.loadTier files tier tier.sources [] []
  let sheets ← (plainCategories tier).mapM (project.buildCategory tier tokens)
  return ⟨moded.flatten ++ sheets, tokens⟩

/-- Writes the sheet that imports the others, if it has a text. -/
def writeImports (directory : Path) : Option String → Work (Option Path)
  | none => return none
  | some text => do
    let path := directory / importSheetName
    Work.write path text
    Work.note (.wroteIndex path.shown (Text.count "@import".toList text.toList))
    return some path

/-- Writes the documents for a design tool, if there are to be any. -/
def writeDocuments (project : Project) (tier : Tier) (tokens : TierTokens) : Work (List Path) :=
  if project.settings.figma.enabled then
    exportTokens tokens.dictionary tokens.output (project.figmaDirectory tier)
      project.settings.build.dtcg
  else
    pure []

/-- The last part of a build: the sheet that imports the others, and the documents. -/
def buildRest (project : Project) (tier : Tier) (sheets : Sheets) (text : Option String) :
    Work (List Path) := do
  let importing ← writeImports (project.sheetDirectory tier) text
  let documents ← project.writeDocuments tier sheets.tokens
  return sheets.paths ++ importing.toList ++ documents

/-- The text of the sheet that imports the others, taken from the files as they are. -/
def importText (project : Project) (tier : Tier) (files : FileTree) : Traced (Option String) :=
  importSheet files (project.sheetDirectory tier) tier.name project.settings.css.breakpoints

/-- A build looks at its own stylesheets once, between the two parts. -/
theorem buildFiles_eq (project : Project) (tier : Tier) : project.buildFiles tier = (do
    let sheets ← project.buildSheets tier
    let text ← Work.reading (project.importText tier)
    project.buildRest tier sheets text) := by
  have himport : writeImportSheet (project.sheetDirectory tier) tier.name
      project.settings.css.breakpoints =
        Work.reading (project.importText tier) >>= writeImports (project.sheetDirectory tier) := by
    refine bind_congr fun text => ?_
    cases text <;> rfl
  simp only [buildFiles, buildSheets, buildRest, himport, bind_assoc, pure_bind, plainCategories,
    writeDocuments]
  cases project.settings.figma.enabled <;> simp

/-! ### The scripts of a build -/

/-- The stylesheets that are written in any case, apart from those of the modes. -/
def firstSheets (project : Project) (tier : Tier) : List Path :=
  (tier.modes.map fun modes => sheetPath (project.sheetDirectory tier / modes.1) "primitive") ++
    (plainCategories tier).map (sheetPath (project.sheetDirectory tier))

theorem isScripted_buildSheets (hseparate : project.Separate start (project.Unsettled start))
    (htier : (key, tier) ∈ project.settings.tiers) :
    Work.IsScripted (project.Around start) (· ∈ project.targets tier) (project.firstSheets tier)
      (project.buildSheets tier) := by
  have hkind := hseparate.around_writeWhole htier
  have hmoded : Work.IsScripted (project.Around start) (· ∈ project.targets tier)
      (tier.modes.flatMap fun modes =>
        [sheetPath (project.sheetDirectory tier / modes.1) "primitive"])
      (tier.modes.mapM fun modes => project.buildModes tier modes.1 modes.2) :=
    .mapM hkind fun modes hmodes => isScripted_buildModes hseparate htier hmodes
  have hplain (tokens : TierTokens) :
      Work.IsScripted (project.Around start) (· ∈ project.targets tier)
        ((plainCategories tier).flatMap fun category =>
          [sheetPath (project.sheetDirectory tier) category])
        ((plainCategories tier).mapM (project.buildCategory tier tokens)) :=
    .mapM hkind fun category hcategory =>
      isScripted_buildCategory hseparate htier hcategory tokens
  have htokens : Work.IsScripted (project.Around start) (· ∈ project.targets tier) []
      (Work.reading fun files => project.loadTier files tier tier.sources [] []) :=
    Work.isScripted_reading fun first second hfirst hsecond =>
      hseparate.result_loadTier_eq htier hfirst hsecond (fun _ h => h) (by simp) (by simp)
  have hall : Work.IsScripted (project.Around start) (· ∈ project.targets tier) (_ ++ ([] ++ (_ ++ [])))
      (project.buildSheets tier) :=
    hmoded.bind hkind fun moded => htokens.bind hkind fun tokens =>
      (hplain tokens).bind hkind fun sheets => Work.isScripted_pure _
  refine hall.mono fun path hpath => ?_
  rw [← List.map_eq_flatMap, ← List.map_eq_flatMap, List.nil_append, List.append_nil]
  exact hpath

/-- The files that a build writes last. -/
def lastTargets (project : Project) (tier : Tier) : List Path :=
  (project.sheetDirectory tier / importSheetName) :: project.documents tier

theorem isScripted_buildRest (project : Project) (tier : Tier) (sheets : Sheets)
    (text : Option String) :
    Work.IsScripted (fun _ => True) (· ∈ project.lastTargets tier) []
      (project.buildRest tier sheets text) := by
  have hkind (files : FileTree) (path : Path) (content : String) (_ : True)
      (_ : path ∈ project.lastTargets tier) : True := trivial
  have himports : Work.IsScripted (fun _ => True) (· ∈ project.lastTargets tier) []
      (writeImports (project.sheetDirectory tier) text) := by
    cases text with
    | none => exact Work.isScripted_pure none
    | some text =>
        exact ((Work.isScripted_write List.mem_cons_self text).bind hkind fun _ =>
          (Work.isScripted_note _).bind hkind fun _ => Work.isScripted_pure _).mono (by simp)
  have hdocuments : Work.IsScripted (fun _ => True) (· ∈ project.lastTargets tier) []
      (project.writeDocuments tier sheets.tokens) := by
    rw [writeDocuments]
    split
    · next henabled =>
        have hmem (path : Path) (hpath : path = project.figmaDirectory tier / "tokens.json" ∨
            path = project.figmaDirectory tier / "typography.json") :
            path ∈ project.lastTargets tier := by
          refine List.mem_cons_of_mem _ ?_
          rw [documents, if_pos henabled]
          simpa using hpath
        exact ((Work.isScripted_reading fun _ _ _ _ => rfl).bind hkind fun tree =>
          (Work.isScripted_write (hmem _ (.inl rfl)) _).bind hkind fun _ =>
          (Work.isScripted_reading fun _ _ _ _ => rfl).bind hkind fun styles =>
          (Work.isScripted_write (hmem _ (.inr rfl)) _).bind hkind fun _ =>
          (Work.isScripted_note _).bind hkind fun _ => Work.isScripted_pure _).mono (by simp)
    · exact Work.isScripted_pure _
  have hall : Work.IsScripted (fun _ => True) (· ∈ project.lastTargets tier) ([] ++ ([] ++ []))
      (project.buildRest tier sheets text) :=
    himports.bind hkind fun importing => hdocuments.bind hkind fun documents =>
      Work.isScripted_pure _
  exact hall

/-- The two scripts of a tier. -/
structure TierScripts (project : Project) (start : FileTree) (tier : Tier) where
  head : Script Sheets
  rest : Sheets → Option String → Script (List Path)
  head_mem : ∀ write ∈ head.writes, write.1 ∈ project.targets tier
  head_must : ∀ sheets, head.outcome = .ok sheets →
    ∀ path ∈ project.firstSheets tier, path ∈ head.writes.map Prod.fst
  rest_mem : ∀ sheets text, ∀ write ∈ (rest sheets text).writes,
    write.1 ∈ project.lastTargets tier
  outcome : ∀ state : WorkState, project.Around start state.files →
    (project.buildFiles tier).outcomeFrom state =
      match head.run state.files with
      | (.error error, left) => (.error error, left)
      | (.ok sheets, after) =>
        match (project.importText tier after).result with
        | .error error => (.error error, after)
        | .ok text => (rest sheets text).run after

theorem Separate.exists_tierScripts
    (hseparate : project.Separate start (project.Unsettled start))
    (htier : (key, tier) ∈ project.settings.tiers) : Nonempty (TierScripts project start tier) := by
  obtain ⟨head, hmem, hmust, hfollows⟩ := isScripted_buildSheets hseparate htier
  choose rest hrest _ hrestFollows using fun sheets text =>
    isScripted_buildRest project tier sheets text
  refine ⟨⟨head, rest, hmem, hmust, hrest, fun state hstate => ?_⟩⟩
  have hhead := hfollows state hstate
  rw [buildFiles_eq, Work.outcomeFrom_bind, ← hhead, Work.outcomeFrom]
  rcases (project.buildSheets tier).run.run state with ⟨error | sheets, after⟩
  · rfl
  · change Work.outcomeFrom (Work.reading _ >>= _) after = _
    rw [Work.outcomeFrom_reading_bind]
    simp only
    cases (project.importText tier after.files).result with
    | error error => rfl
    | ok text => exact hrestFollows sheets text _ trivial

end Project

end DesignTokens
