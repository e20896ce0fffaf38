import DesignTokens.Proofs.Files.Loaded
import DesignTokens.Proofs.Files.Shown
import DesignTokens.Proofs.Project.Orders

/-!
# The tokens that a tier writes out

A token of a tier is written out if the last of the loaded files that defines it is one of
those whose tokens are written out. A file under the older keys does not count as long as its
root has no value and the token lies in a group that is named like the extensions key: such
a token may have no file at all, and then it is left out.
-/

namespace DesignTokens

variable {α : Type} {p q : α → Prop} {xs : List α} {x y : α}

/-- The last item of the list with the property. -/
def IsLastOf (p : α → Prop) (xs : List α) (x : α) : Prop :=
  ∃ before after, xs = before ++ x :: after ∧ p x ∧ ∀ later ∈ after, ¬ p later

theorem IsLastOf.mem (hlast : IsLastOf p xs x) : x ∈ xs := by
  obtain ⟨before, after, rfl, -⟩ := hlast
  exact List.mem_append_cons_self

theorem IsLastOf.holds (hlast : IsLastOf p xs x) : p x := by
  obtain ⟨-, -, -, hx, -⟩ := hlast
  exact hx

theorem exists_isLastOf_iff : (∃ x, IsLastOf p xs x) ↔ ∃ x ∈ xs, p x := by
  constructor
  · rintro ⟨x, hlast⟩
    exact ⟨x, hlast.mem, hlast.holds⟩
  · intro hexists
    induction xs with
    | nil => simp at hexists
    | cons first rest ih =>
        by_cases hrest : ∃ x ∈ rest, p x
        · obtain ⟨x, before, after, rfl, hlast⟩ := ih hrest
          exact ⟨x, first :: before, after, rfl, hlast⟩
        · rw [List.exists_mem_cons_iff, or_iff_left hrest] at hexists
          exact ⟨first, [], rest, rfl, hexists, fun later hmem hp => hrest ⟨later, hmem, hp⟩⟩

theorem IsLastOf.congr (hsame : ∀ x ∈ xs, p x ↔ q x) : IsLastOf p xs x ↔ IsLastOf q xs x := by
  refine exists_congr fun before => exists_congr fun after => and_congr_right ?_
  rintro rfl
  rw [List.forall_mem_append, List.forall_mem_cons] at hsame
  exact and_congr hsame.2.1 (forall₂_congr fun later hlater => not_congr (hsame.2.2 later hlater))

theorem IsLastOf.unique (hx : IsLastOf p xs x) (hy : IsLastOf p xs y) : x = y := by
  obtain ⟨before, after, rfl, hpx, hafter⟩ := hx
  obtain ⟨before', after', hsame, hpy, hafter'⟩ := hy
  rcases List.append_eq_append_iff.1 hsame with ⟨between, -, hrest⟩ | ⟨between, -, hrest⟩
  · cases between with
    | nil => exact (List.cons.inj hrest).1
    | cons first others =>
        obtain ⟨-, rfl⟩ := List.cons.inj hrest
        exact absurd hpy (hafter y (by simp))
  · cases between with
    | nil => exact (List.cons.inj hrest).1.symm
    | cons first others =>
        obtain ⟨-, rfl⟩ := List.cons.inj hrest
        exact absurd hpx (hafter' x (by simp))

namespace Loading

open DesignTokens.Tree

variable {files : FileTree} {keys : Keys} {paths : List Path} {path : TokenPath} {file : Path}

/-- The tree in the file has a token at the path. -/
def Defines (files : FileTree) (keys : Keys) (path : TokenPath) (file : Path) : Prop :=
  ∃ tree, readTree files file = .ok tree ∧ HasLeaf keys tree path

/-- The file does not lose the token at the path when it is taken alone. -/
def Keeps (files : FileTree) (keys : Keys) (path : TokenPath) (file : Path) : Prop :=
  keys.extensions ∈ path →
    ∃ tree, readTree files file = .ok tree ∧ Entries.contains tree keys.value = true

/-- Only under the older keys can a token be lost. -/
theorem Defines.keeps {dtcg : Bool} (hdefines : Defines files (Keys.of dtcg) path file)
    (hapart : dtcg = true ∨ Keys.legacy.extensions ∉ path) :
    Keeps files (Keys.of dtcg) path file := by
  intro hpath
  obtain ⟨tree, -, hleaf⟩ := hdefines
  cases dtcg with
  | true => exact absurd hpath (not_mem_extensions_of_hasLeaf hleaf)
  | false => exact absurd hpath (hapart.resolve_left Bool.false_ne_true)

/-- The last file of the list that has the token at the path and does not lose it. -/
def IsOwner (files : FileTree) (keys : Keys) (paths : List Path) (path : TokenPath) :
    Path → Prop :=
  IsLastOf (fun file => Defines files keys path file ∧ Keeps files keys path file) paths

theorem Reads.definesAlone_iff_keeps {loaded : Loaded} (hreads : Reads files keys paths loaded)
    (hkeys : keys.Apart) (hfile : file ∈ paths) :
    DefinesAlone files keys file path ↔
      Defines files keys path file ∧ Keeps files keys path file := by
  rw [hreads.definesAlone_iff hkeys hfile]
  constructor
  · rintro ⟨tree, htree, hleaf, hkept⟩
    exact ⟨⟨tree, htree, hleaf⟩, fun hpath => ⟨tree, htree, hkept.resolve_right (not_not.2 hpath)⟩⟩
  · rintro ⟨⟨tree, htree, hleaf⟩, hkeeps⟩
    refine ⟨tree, htree, hleaf, ?_⟩
    by_cases hpath : keys.extensions ∈ path
    · obtain ⟨same, hsame, hroot⟩ := hkeeps hpath
      obtain rfl : tree = same := Except.ok.inj (htree.symm.trans hsame)
      exact .inl hroot
    · exact .inr hpath

theorem isLastWith_iff {source : String} : IsLastWith files keys paths path source ↔
    ∃ file, IsLastOf (DefinesAlone files keys · path) paths file ∧ file.shown = source := by
  constructor
  · rintro ⟨before, file, after, hpaths, hshown, hlast⟩
    exact ⟨file, ⟨before, after, hpaths, hlast⟩, hshown⟩
  · rintro ⟨file, ⟨before, after, hpaths, hlast⟩, hshown⟩
    exact ⟨before, file, after, hpaths, hshown, hlast⟩

/-- A token of a list of files has the last file that defines and keeps it as its source. It has
none if no file keeps it, which can be under the older keys only. -/
theorem source_of_dictionaryOfFiles {dtcg : Bool} {lead : Option String} {dictionary : Dictionary}
    (hloaded : (dictionaryOfFiles files paths dtcg lead).result = .ok dictionary) {token : Token}
    (htoken : token ∈ dictionary.tokens) :
    (∀ source, token.source = some source ↔
      ∃ file, IsOwner files (Keys.of dtcg) paths token.path file ∧ file.shown = source) ∧
      (token.source = none → dtcg = false ∧ Keys.legacy.extensions ∈ token.path) := by
  obtain ⟨tokens, htokens, hrest⟩ := Traced.bind_eq_ok.1 hloaded
  obtain ⟨out, hresolved, hend⟩ := Traced.bind_eq_ok.1 hrest
  have hout : Resolution.resolve tokens lead = .ok out := hresolved
  rw [← (ofTokens_eq_iff hout).1 (Except.ok.inj hend)] at htoken
  obtain ⟨⟨authored, hlast, hcarries⟩, -⟩ := Resolution.resolved_of_mem hout htoken
  obtain ⟨before, after, hsplit, -⟩ := hlast
  have hmem : authored ∈ tokens := by simp [hsplit]
  obtain ⟨hsome, hnone⟩ := source_of_readTokens htokens hmem
  obtain ⟨loaded, merged, hreads, -⟩ := exists_loaded_of_readTokens htokens
  have hkeeps : ∀ file ∈ paths, DefinesAlone files (Keys.of dtcg) file authored.path ↔
      Defines files (Keys.of dtcg) authored.path file ∧
        Keeps files (Keys.of dtcg) authored.path file :=
    fun file hfile => hreads.definesAlone_iff_keeps (Keys.apart_of dtcg) hfile
  rw [hcarries.source, hcarries.path]
  refine ⟨fun source => ?_, fun hlost => ?_⟩
  · rw [hsome, isLastWith_iff]
    exact exists_congr fun file => and_congr_left fun _ => IsLastOf.congr hkeeps
  · obtain ⟨hkeys, hpath, -⟩ := hnone.1 hlost
    exact ⟨hkeys, hpath⟩

/-- Every file keeps what it has, unless it is under the older keys and the token lies in a group
that is named like the extensions key. -/
theorem isOwner_iff {dtcg : Bool} (hapart : dtcg = true ∨ Keys.legacy.extensions ∉ path) :
    IsOwner files (Keys.of dtcg) paths path file ↔
      IsLastOf (Defines files (Keys.of dtcg) path) paths file :=
  IsLastOf.congr fun _ _ => and_iff_left_of_imp fun hdefines => hdefines.keeps hapart

/-- The source of a token is one of some files exactly if its owner is. -/
theorem exists_source_iff {dtcg : Bool} {lead : Option String} {dictionary : Dictionary}
    {included sources : List Path}
    (hloaded : (dictionaryOfFiles files (included ++ sources) dtcg lead).result = .ok dictionary)
    (hplain : ∀ file ∈ included ++ sources, file.Plain) {token : Token}
    (htoken : token ∈ dictionary.tokens) :
    (∃ file ∈ sources, token.source = some file.shown) ↔
      ∃ file ∈ sources, IsOwner files (Keys.of dtcg) (included ++ sources) token.path file := by
  have hsome := (source_of_dictionaryOfFiles hloaded htoken).1
  constructor
  · rintro ⟨file, hfile, hsource⟩
    obtain ⟨last, hlast, hshown⟩ := (hsome file.shown).1 hsource
    have hsame := Path.shown_inj (hplain last hlast.mem)
      (hplain file (List.mem_append_right _ hfile))
    rw [hsame.1 hshown] at hlast
    exact ⟨file, hfile, hlast⟩
  · rintro ⟨file, hfile, hlast⟩
    exact ⟨file, hfile, (hsome file.shown).2 ⟨file, hlast, rfl⟩⟩

/-- A token of a list of files has an owner, or is lost by every file that has it. -/
theorem exists_isOwner_or_lost {dtcg : Bool} {lead : Option String} {dictionary : Dictionary}
    (hloaded : (dictionaryOfFiles files paths dtcg lead).result = .ok dictionary) {token : Token}
    (htoken : token ∈ dictionary.tokens) :
    (∃ file, IsOwner files (Keys.of dtcg) paths token.path file) ∨
      dtcg = false ∧ Keys.legacy.extensions ∈ token.path ∧
        ∀ file ∈ paths, Defines files (Keys.of dtcg) token.path file →
          ¬ Keeps files (Keys.of dtcg) token.path file := by
  obtain ⟨hsome, hnone⟩ := source_of_dictionaryOfFiles hloaded htoken
  cases hsource : token.source with
  | some source =>
      obtain ⟨file, hlast, -⟩ := (hsome source).1 hsource
      exact .inl ⟨file, hlast⟩
  | none =>
      obtain ⟨hkeys, hpath⟩ := hnone hsource
      refine .inr ⟨hkeys, hpath, fun file hfile hdefines hkeeps => ?_⟩
      obtain ⟨owner, howner⟩ : ∃ owner, IsOwner files (Keys.of dtcg) paths token.path owner :=
        exists_isLastOf_iff.2 ⟨file, hfile, hdefines, hkeeps⟩
      rw [(hsome owner.shown).2 ⟨owner, howner, rfl⟩] at hsource
      cases hsource

end Loading

namespace Project

open Loading DesignTokens.Tree

variable {project : Project} {files : FileTree} {tier : Tier} {patterns reference : List String}
  {included found extra : List Path} {loaded : TierTokens}

/-- The files whose tokens are written out: those that are found, without the files of modes
and the included ones, then the extra ones. -/
def written (project : Project) (files : FileTree) (tier : Tier)
    (included found extra : List Path) : List Path :=
  (found.filter fun path => files.resolve path ∉ project.modeFiles files tier ∧ path ∉ included) ++
    extra

theorem plain_of_mem_written (hnamed : files.Named) (hroot : project.root.Plain)
    (hextra : ∀ path ∈ extra, path.Plain)
    (hincluded : (files.expand project.root (tier.included ++ reference)).result = .ok included)
    (hfound : (files.expand project.root patterns).result = .ok found) :
    ∀ file ∈ included ++ project.written files tier included found extra, file.Plain := by
  rw [List.forall_mem_append, written, List.forall_mem_append]
  refine ⟨FileTree.plain_of_mem_expand hnamed hroot hincluded, fun file hfile => ?_, hextra⟩
  exact FileTree.plain_of_mem_expand hnamed hroot hfound file (List.mem_of_mem_filter hfile)

/-- Without extra files no included one and none of a mode is written. -/
theorem not_mem_of_mem_written {file : Path}
    (hfile : file ∈ project.written files tier included found []) :
    file ∉ included ∧ files.resolve file ∉ project.modeFiles files tier := by
  rw [written, List.append_nil, List.mem_filter, decide_eq_true_eq] at hfile
  exact hfile.2.symm

/-- A load succeeds with the dictionary of all files and those of its tokens that have a written
file as their source. -/
theorem exists_of_loadTier
    (hloaded : (project.loadTier files tier patterns extra reference).result = .ok loaded) :
    ∃ included found,
      (files.expand project.root (tier.included ++ reference)).result = .ok included ∧
        (files.expand project.root patterns).result = .ok found ∧
          (dictionaryOfFiles files (included ++ project.written files tier included found extra)
            project.settings.build.dtcg project.settings.css.lead).result = .ok loaded.dictionary ∧
            loaded.output.Sublist loaded.dictionary.tokens ∧
              ∀ token, token ∈ loaded.output ↔ token ∈ loaded.dictionary.tokens ∧
                ∃ file ∈ project.written files tier included found extra,
                  token.source = some file.shown := by
  obtain ⟨⟨included, sources⟩, hsources, hrest⟩ := Traced.bind_eq_ok.1 hloaded
  obtain ⟨dictionary, hdictionary, hend⟩ := Traced.bind_eq_ok.1 hrest
  obtain ⟨first, hincluded, hnext⟩ := Traced.bind_eq_ok.1 hsources
  obtain ⟨found, hfound, hpair⟩ := Traced.bind_eq_ok.1 hnext
  cases hpair
  cases hend
  refine ⟨included, found, hincluded, hfound, hdictionary, List.filter_sublist, fun token => ?_⟩
  rw [List.mem_filter]
  apply and_congr_right
  intro _
  rw [← written]
  cases token.source with
  | none => simp
  | some source =>
      rw [List.contains_iff_mem, List.mem_map]
      exact exists_congr fun file => and_congr_right fun _ => by rw [Option.some.injEq, eq_comm]

/-- The keys under which the files of a project are read. -/
def keys (project : Project) : Keys :=
  Keys.of project.settings.build.dtcg

/-- A token of a tier is written out exactly if the last of the loaded files that has the token
and does not lose it is one of the written ones. So it is if the last file that has the token
is one, unless the token lies in a group that is named like the extensions key of the older
keys. If there are no extra files, what is left out are the tokens whose last file is included
or belongs to a mode, and those that every file loses. -/
theorem output_of_loadTier (hnamed : files.Named) (hroot : project.root.Plain)
    (hextra : ∀ path ∈ extra, path.Plain)
    (hloaded : (project.loadTier files tier patterns extra reference).result = .ok loaded) :
    ∃ included found sources,
      (files.expand project.root (tier.included ++ reference)).result = .ok included ∧
        (files.expand project.root patterns).result = .ok found ∧
          sources = project.written files tier included found extra ∧
            loaded.output.Sublist loaded.dictionary.tokens ∧
              ∀ token ∈ loaded.dictionary.tokens,
                (token ∈ loaded.output ↔ ∃ file ∈ sources,
                  IsOwner files project.keys (included ++ sources) token.path file) ∧
                (project.settings.build.dtcg = true ∨ Keys.legacy.extensions ∉ token.path →
                  (token ∈ loaded.output ↔ ∃ file ∈ sources,
                    IsLastOf (Defines files project.keys token.path) (included ++ sources) file)) ∧
                (extra = [] → (token ∉ loaded.output ↔
                  (∃ file, IsOwner files project.keys (included ++ sources) token.path file ∧
                    (file ∈ included ∨ files.resolve file ∈ project.modeFiles files tier)) ∨
                  project.settings.build.dtcg = false ∧ Keys.legacy.extensions ∈ token.path ∧
                    ∀ file ∈ included ++ sources, Defines files project.keys token.path file →
                      ¬ Keeps files project.keys token.path file)) := by
  obtain ⟨included, found, hincluded, hfound, hdictionary, hsublist, houtput⟩ :=
    exists_of_loadTier hloaded
  refine ⟨included, found, _, hincluded, hfound, rfl, hsublist, fun token htoken => ?_⟩
  have hplain := plain_of_mem_written hnamed hroot hextra hincluded hfound
  have howner : token ∈ loaded.output ↔
      ∃ file ∈ project.written files tier included found extra, IsOwner files project.keys
        (included ++ project.written files tier included found extra) token.path file := by
    rw [houtput token, and_iff_right htoken]
    exact exists_source_iff hdictionary hplain htoken
  refine ⟨howner, fun hapart => ?_, fun hfull => ?_⟩
  · apply howner.trans
    exact exists_congr fun file => and_congr_right fun _ => isOwner_iff hapart
  · constructor
    · intro hleft
      refine (exists_isOwner_or_lost hdictionary htoken).imp_left ?_
      rintro ⟨file, hlast⟩
      refine ⟨file, hlast, .inl ?_⟩
      rcases List.mem_append.1 hlast.mem with hincluded | hwritten
      · exact hincluded
      · exact absurd (howner.2 ⟨file, hwritten, hlast⟩) hleft
    · rintro hleft hin
      obtain ⟨file, hfile, hlast⟩ := howner.1 hin
      rcases hleft with ⟨other, hother, hplace⟩ | ⟨-, -, hlost⟩
      · rw [hother.unique hlast] at hplace
        rw [hfull] at hfile
        obtain ⟨hapart, hmode⟩ := not_mem_of_mem_written hfile
        exact hplace.elim hapart hmode
      · exact hlost file hlast.mem hlast.holds.1 hlast.holds.2

/-- A project at the root of the file tree whose tokens are under the older keys. -/
def older : Project where
  root := ⟨"/", []⟩
  settings := { (sample []).settings with build := { logLevel := .silent, dtcg := false } }

/-- A tier that writes out the tokens of all files. -/
def everything : Tier := { name := "all", sources := ["*.json"] }

def rootedPaths : List Path := [⟨"/", ["a.json"]⟩, ⟨"/", ["b.json"]⟩]

theorem expand_everything :
    (shadowing.expand older.root everything.sources).result = .ok rootedPaths := by
  have hanchor : (FileTree.patternIn older.root "*.json").anchor = "/" := by rfl
  have hsteps : (FileTree.patternIn older.root "*.json").steps =
      [.wild false (NamePart.ofText "*.json")] := by
    decide +kernel
  have hreached : shadowing.reached "/" [.wild false (NamePart.ofText "*.json")] = rootedPaths := by
    decide +kernel
  have hsorted : rootedPaths.Pairwise fun a b => Path.le a b = true := by decide
  have hfiles : shadowing.filesOf (FileTree.patternIn older.root "*.json") = rootedPaths := by
    rw [FileTree.filesOf, FileTree.matching_eq, hanchor, hsteps, hreached,
      List.mergeSort_of_pairwise hsorted]
    rfl
  rw [FileTree.result_expand, everything, List.foldl_cons, List.foldl_nil, hfiles]
  rfl

theorem sourceFiles_everything :
    (older.sourceFiles shadowing everything everything.sources [] []).result =
      .ok ([], rootedPaths) := by
  refine Traced.bind_eq_ok.2 ⟨[], rfl, Traced.bind_eq_ok.2 ⟨_, expand_everything, ?_⟩⟩
  rfl

/-- The token that both files lose when they are taken alone. -/
def shadowed : Token where
  path := ["extensions", "b"]
  name := "extensions-b"
  type := none
  value := .text "x"
  original := .text "x"
  mode := none
  description := none
  extensions := []
  source := none

/-- The token that the second file has after the first. -/
def redefined : Token where
  path := ["c"]
  name := "c"
  type := none
  value := .text "z"
  original := .text "z"
  mode := none
  description := none
  extensions := []
  source := some "/b.json"

def shadowingLoaded : TierTokens := ⟨Dictionary.ofTokens [shadowed, redefined], [redefined]⟩

theorem dictionaryOfFiles_shadowing :
    (dictionaryOfFiles shadowing rootedPaths false none).result =
      .ok (.ofTokens [shadowed, redefined]) := by
  have htokens : (readTokens shadowing rootedPaths false).result =
      .ok [⟨["extensions", "b"], .null, .text "x", [], .null, none⟩,
        ⟨["c"], .null, .text "z", [], .null, some "/b.json"⟩] := by
    cbv
  refine Traced.bind_eq_ok.2 ⟨_, htokens, Traced.bind_eq_ok.2 ⟨[shadowed, redefined], ?_, rfl⟩⟩
  cbv

theorem loadTier_everything :
    (older.loadTier shadowing everything everything.sources [] []).result =
      .ok shadowingLoaded := by
  refine Traced.bind_eq_ok.2 ⟨_, sourceFiles_everything, ?_⟩
  refine Traced.bind_eq_ok.2 ⟨_, dictionaryOfFiles_shadowing, ?_⟩
  rfl

theorem named_shadowing : shadowing.Named := by
  rw [FileTree.Named]
  decide

theorem plain_root_older : older.root.Plain := ⟨by decide, by decide⟩

theorem output_of_loadTier_everything :
    shadowing.Named ∧ older.root.Plain ∧ (∀ path ∈ ([] : List Path), path.Plain) ∧
      (older.loadTier shadowing everything everything.sources [] []).result =
        .ok shadowingLoaded ∧
      ∀ token ∈ shadowingLoaded.dictionary.tokens,
        (token ∈ shadowingLoaded.output ↔ ∃ file ∈ rootedPaths,
          IsOwner shadowing older.keys rootedPaths token.path file) := by
  refine ⟨named_shadowing, plain_root_older, by simp, loadTier_everything, fun token htoken => ?_⟩
  obtain ⟨included, found, sources, hincluded, hfound, rfl, -, houtput⟩ :=
    output_of_loadTier named_shadowing plain_root_older (by simp) loadTier_everything
  obtain rfl : [] = included := Except.ok.inj hincluded
  obtain rfl : rootedPaths = found := Except.ok.inj (expand_everything.symm.trans hfound)
  have hsources : older.written shadowing everything [] rootedPaths [] = rootedPaths := by
    rfl
  rw [hsources] at houtput
  exact (houtput token htoken).1

theorem isLastOf_shadowed :
    IsLastOf (Defines shadowing older.keys shadowed.path) rootedPaths ⟨"/", ["a.json"]⟩ := by
  have hfirst : readTree shadowing ⟨"/", ["a.json"]⟩ =
      .ok [("extensions", .object [("b", .object [("value", .text "x")])]),
        ("c", .object [("value", .text "y")])] := by
    cbv
  have hsecond : readTree shadowing ⟨"/", ["b.json"]⟩ =
      .ok [("value", .text ""), ("c", .object [("value", .text "z")])] := by
    cbv
  refine ⟨[], [⟨"/", ["b.json"]⟩], rfl, ⟨_, hfirst, ?_⟩, ?_⟩
  · rw [HasLeaf]
    decide
  · rw [List.forall_mem_singleton]
    rintro ⟨tree, htree, hleaf⟩
    obtain rfl := Except.ok.inj (hsecond.symm.trans htree)
    rw [HasLeaf] at hleaf
    revert hleaf
    decide

/-- A token can be left out although a written file is the last one that has it. -/
theorem not_output_shadowed :
    ¬ ∀ (project : Project) (files : FileTree) (tier : Tier) (patterns reference : List String)
      (extra included sources : List Path) (loaded : TierTokens),
      files.Named → project.root.Plain → (∀ path ∈ extra, path.Plain) →
        (project.loadTier files tier patterns extra reference).result = .ok loaded →
          (project.sourceFiles files tier patterns extra reference).result =
              .ok (included, sources) →
            ∀ token ∈ loaded.dictionary.tokens,
              (token ∈ loaded.output ↔ ∃ file ∈ sources,
                IsLastOf (Defines files project.keys token.path) (included ++ sources) file) := by
  intro hclaim
  have hshadowed := hclaim older shadowing everything everything.sources [] [] [] rootedPaths
    shadowingLoaded named_shadowing plain_root_older (by simp) loadTier_everything
    sourceFiles_everything shadowed (List.mem_cons_self ..)
  have hwritten := hshadowed.2 ⟨_, List.mem_cons_self, isLastOf_shadowed⟩
  cases congrArg Token.source (List.mem_singleton.1 hwritten)

end Project

end DesignTokens
