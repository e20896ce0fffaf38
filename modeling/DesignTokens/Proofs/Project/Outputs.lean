import Mathlib.Data.List.Pairwise
import DesignTokens.Project.Build
import DesignTokens.Proofs.Files.Found
import DesignTokens.Proofs.Files.Rewriting
import DesignTokens.Proofs.Text

/-!
# Where tiers are built

Every tier has output directories of its own. If none of them lies inside another, or is
reached through the inside of another, each tier has a ground to which no other one comes.
What a build reads lies elsewhere, provided that the patterns and mode files of all tiers
keep away from the places that builds change: the inside of the output directories, and the
directories on the way there that are missing at first. All trees that differ from the first
one at such places alone are read alike.
-/

namespace DesignTokens

/-! ### Names of files that are written -/

namespace Path

/-- The last name of the path is neither a double dot nor that of a file that is written
beside another. -/
def IsTarget (path : Path) : Prop :=
  ∃ before name, path.names = before ++ [name] ∧
    (name.toList.getLast? = some 's' ∨ name.toList.getLast? = some 'n')

variable {path : Path}

theorem name_eq_of_names {before : List String} {name : String}
    (hnames : path.names = before ++ [name]) : path.name = name := by
  simp [Path.name, hnames]

theorem IsTarget.namesFile (hpath : path.IsTarget) : path.NamesFile := by
  obtain ⟨before, name, hnames, hlast⟩ := hpath
  refine ⟨by simp [hnames], ?_⟩
  rw [name_eq_of_names hnames]
  rintro rfl
  revert hlast
  decide

theorem IsTarget.place_ne_temporaryPlace (hpath : path.IsTarget) (other : Path) (here : Place) :
    path.place here ≠ other.temporaryPlace here := by
  intro heq
  rw [hpath.namesFile.place_eq, temporaryPlace_eq] at heq
  obtain ⟨before, name, hnames, hlast⟩ := hpath
  have hname := List.singleton_injective (List.append_inj' heq rfl).2
  rw [name_eq_of_names hnames] at hname
  rw [hname] at hlast
  simp [FileTree.temporaryEnding] at hlast

/-- A path with an ending added to its last name ends so. -/
theorem isTarget_below (base : Path) (text ending : String) (hslash : '/' ∉ ending.toList)
    (hlength : 1 < ending.length)
    (hlast : ending.toList.getLast? = some 's' ∨ ending.toList.getLast? = some 'n') :
    (base / (text ++ ending) : Path).IsTarget := by
  obtain ⟨before, last, -, hfields⟩ := Text.exists_stretches_append hslash text.toList
  have hkept : !(String.ofList (last ++ ending.toList)).isEmpty &&
      String.ofList (last ++ ending.toList) != "." := by
    have hlong : 1 < (String.ofList (last ++ ending.toList)).length := by
      simp only [String.length_ofList, List.length_append, String.length_toList]
      omega
    rw [Bool.and_eq_true, Bool.not_eq_true', bne_iff_ne]
    constructor
    · rw [Bool.eq_false_iff, ne_eq, String.isEmpty_iff]
      intro h
      simp [h] at hlong
    · intro h
      rw [h] at hlong
      exact absurd hlong (by decide)
  have hnames : (ofText (text ++ ending)).names =
      ((before.map String.ofList).filter fun name => !name.isEmpty && name != ".") ++
        [String.ofList (last ++ ending.toList)] := by
    rw [ofText, Text.fields, String.toList_append, hfields, List.map_append, List.filter_append]
    simp only [List.map_cons, List.map_nil, List.filter_cons, hkept, if_true, List.filter_nil]
  have hends : (String.ofList (last ++ ending.toList)).toList.getLast? =
      ending.toList.getLast? := by
    rw [String.toList_ofList, List.getLast?_append]
    rcases hlast with h | h <;> rw [h, Option.some_or]
  change (base.below (ofText (text ++ ending))).IsTarget
  rw [below]
  split
  · exact ⟨_, _, hnames, hends ▸ hlast⟩
  · exact ⟨base.names ++ _, _, by rw [hnames, List.append_assoc], hends ▸ hlast⟩

/-! ### Places of several directories -/

/-- The places through which a path leads, with the one where it ends. -/
def passage (path : Path) (here : Place) : List Place :=
  path.place here :: path.way here

/-- The place lies inside one of the directories. -/
def Within (here : Place) (directories : List Path) (place : Place) : Prop :=
  ∃ directory ∈ directories, directory.place here <+: place ∧ place ≠ directory.place here

/-- The place is one of the directories, or lies on the way to one. -/
def Leading (here : Place) (directories : List Path) (place : Place) : Prop :=
  ∃ directory ∈ directories, place ∈ directory.passage here

/-- The two directories differ, and neither is reached through the inside of the other. -/
structure Apart (here : Place) (first second : Path) : Prop where
  ne : first.place here ≠ second.place here
  left : ∀ place ∈ first.passage here, ¬ Within here [second] place
  right : ∀ place ∈ second.passage here, ¬ Within here [first] place

/-- The file lies in the directory or below it, and the way there leaves the directory
nowhere. -/
structure StaysIn (here : Place) (path directory : Path) : Prop where
  below : directory.place here <+: path.parent.place here
  way : ∀ place ∈ path.parent.way here,
    place ∈ directory.way here ∨ directory.place here <+: place

variable {here place : Place} {first second directory : Path} {directories : List Path}

instance : Decidable (Within here directories place) :=
  inferInstanceAs (Decidable (∃ directory ∈ directories, _ ∧ _))

instance : Decidable (Leading here directories place) :=
  inferInstanceAs (Decidable (∃ directory ∈ directories, _))

instance : Decidable (Apart here first second) :=
  decidable_of_iff (first.place here ≠ second.place here ∧
      (∀ place ∈ first.passage here, ¬ Within here [second] place) ∧
      ∀ place ∈ second.passage here, ¬ Within here [first] place)
    ⟨fun h => ⟨h.1, h.2.1, h.2.2⟩, fun h => ⟨h.ne, h.left, h.right⟩⟩

open scoped Place in
instance : Decidable (path.StaysIn here directory) :=
  decidable_of_iff (directory.place here <+: path.parent.place here ∧
      ∀ place ∈ path.parent.way here, place ∈ directory.way here ∨ directory.place here <+: place)
    ⟨fun h => ⟨h.1, h.2⟩, fun h => ⟨h.below, h.way⟩⟩

theorem Within.mono {more : List Path} (hwithin : Within here directories place)
    (hsub : ∀ directory ∈ directories, directory ∈ more) : Within here more place := by
  obtain ⟨directory, hdirectory, hinside⟩ := hwithin
  exact ⟨directory, hsub _ hdirectory, hinside⟩

/-- What lies below something inside lies inside. -/
theorem Within.append (hwithin : Within here directories place) (below : List String) :
    Within here directories (place ++ below) := by
  obtain ⟨directory, hdirectory, ⟨more, rfl⟩, hne⟩ := hwithin
  refine ⟨directory, hdirectory, ⟨more ++ below, by simp⟩, ?_⟩
  rw [List.append_assoc]
  intro h
  have hnil := List.append_eq_nil_iff.1 (List.append_right_eq_self.1 h)
  exact hne (by rw [hnil.1, List.append_nil])

/-- What lies below a place beside the directories lies inside none of them. -/
theorem not_within_append
    (hbeside : ∀ directory ∈ directories,
      ¬ directory.place here <+: place ∧ ¬ place <+: directory.place here)
    (below : List String) : ¬ Within here directories (place ++ below) := by
  rintro ⟨directory, hdirectory, hinside, -⟩
  obtain ⟨habove, hbelow⟩ := hbeside directory hdirectory
  rcases List.prefix_or_prefix_of_prefix hinside (List.prefix_append place below) with h | h
  · exact habove h
  · exact hbelow h

theorem Apart.symm (hapart : Apart here first second) : Apart here second first :=
  ⟨hapart.ne.symm, hapart.right, hapart.left⟩

/-- Nothing lies inside both of two directories that are apart. -/
theorem Apart.not_within (hapart : Apart here first second) (hfirst : Within here [first] place) :
    ¬ Within here [second] place := by
  rintro ⟨_, hmem', hsecond, -⟩
  obtain ⟨_, hmem, hfirst, -⟩ := hfirst
  obtain rfl := List.mem_singleton.1 hmem
  obtain rfl := List.mem_singleton.1 hmem'
  rcases List.prefix_or_prefix_of_prefix hfirst hsecond with h | h
  · exact hapart.right _ List.mem_cons_self ⟨_, hmem, h, hapart.ne.symm⟩
  · exact hapart.left _ List.mem_cons_self ⟨_, hmem', h, hapart.ne⟩

theorem within_singleton_iff : Within here [directory] place ↔
    directory.place here <+: place ∧ place ≠ directory.place here := by
  simp [Within]

/-- A file right in a directory stays there. -/
theorem staysIn_of_parent_eq (hparent : path.parent = directory) : path.StaysIn here directory := by
  rw [← hparent]
  exact ⟨List.prefix_refl _, fun _ h => .inl h⟩

end Path

namespace Project

open DesignTokens.Path Stylesheet

/-- The directories into which a tier is written. -/
def outputsOf (project : Project) (tier : Tier) : List Path :=
  project.sheetDirectory tier ::
    if project.settings.figma.enabled then [project.figmaDirectory tier] else []

/-- The output directories of all tiers. -/
def outputs (project : Project) : List Path :=
  project.settings.tiers.flatMap fun entry => project.outputsOf entry.2

/-- The stylesheets of the categories that have modes. -/
def modeSheets (project : Project) (tier : Tier) : List Path :=
  tier.modes.flatMap fun entry => ("primitive" :: entry.2.map Prod.fst).map
    (sheetPath (project.sheetDirectory tier / entry.1))

/-- The categories without modes. -/
def plainCategories (tier : Tier) : List String :=
  Category.all.filter fun category => !Entries.contains tier.modes category

/-- The documents for a design tool. -/
def documents (project : Project) (tier : Tier) : List Path :=
  if project.settings.figma.enabled then
    [project.figmaDirectory tier / "tokens.json", project.figmaDirectory tier / "typography.json"]
  else
    []

/-- The files that a build of the tier can write. -/
def targets (project : Project) (tier : Tier) : List Path :=
  project.modeSheets tier ++ (plainCategories tier).map (sheetPath (project.sheetDirectory tier)) ++
    (project.sheetDirectory tier / importSheetName) :: project.documents tier

/-- The places that builds may change and where the first tree does not say what a build
finds: inside an output directory, and where a directory on the way to one is missing. -/
def Unsettled (project : Project) (files : FileTree) (place : Place) : Prop :=
  Within files.here project.outputs place ∨
    Leading files.here project.outputs place ∧ files.node? place = none

/-- The tiers have output directories of their own, none inside another, and nothing that is
read lies inside one. This alone does not keep builds apart: they also make directories on the
way to their own, and a double dot leads through a directory that an earlier build has made. -/
structure Tidy (project : Project) (files : FileTree) : Prop where
  wellFormed : files.WellFormed
  disjoint : project.outputs.Pairwise fun first second =>
    ¬ first.place files.here <+: second.place files.here ∧
      ¬ second.place files.here <+: first.place files.here
  inside : ∀ entry ∈ project.settings.tiers, ∀ path ∈ project.modeSheets entry.2,
    path.StaysIn files.here (project.sheetDirectory entry.2)
  patterns : ∀ entry ∈ project.settings.tiers, ∀ text ∈ entry.2.included ++ entry.2.sources,
    ∀ names, Pattern.Spells (FileTree.patternIn project.root text).steps names →
      ¬ Within files.here project.outputs
        ((Path.mk (FileTree.patternIn project.root text).anchor names).place files.here)
  modeFiles : ∀ entry ∈ project.settings.tiers, ∀ modes ∈ entry.2.modes, ∀ mode ∈ modes.2,
    ∀ place ∈ (project.root / mode.2 : Path).passage files.here,
      ¬ Within files.here project.outputs place

/-- The tiers do not come in each other's way: their output directories are apart, the names
of categories and modes do not lead out of them, and patterns and mode files keep away from
them. The places that may differ from one build to the next are no mode file either, and
neither patterns nor mode files go up from one. -/
structure Separate (project : Project) (files : FileTree) (differs : Place → Prop) : Prop where
  wellFormed : files.WellFormed
  apart : project.outputs.Pairwise (Apart files.here)
  inside : ∀ entry ∈ project.settings.tiers, ∀ path ∈ project.modeSheets entry.2,
    path.StaysIn files.here (project.sheetDirectory entry.2)
  patterns : ∀ entry ∈ project.settings.tiers, ∀ text ∈ entry.2.included ++ entry.2.sources,
    (FileTree.patternIn project.root text).Avoids files.here
      (Within files.here project.outputs) differs
  modeFiles : ∀ entry ∈ project.settings.tiers, ∀ modes ∈ entry.2.modes, ∀ mode ∈ modes.2,
    (project.root / mode.2).Avoids files.here differs

/-- No directory on the way to a file of the tier is one of those written beside a file. -/
def Unhindered (project : Project) (here : Place) (tier : Tier) : Prop :=
  ∀ path ∈ project.targets tier, ∀ other ∈ project.targets tier,
    other.temporaryPlace here ∉ path.parent.way here

instance (project : Project) (files : FileTree) (place : Place) :
    Decidable (project.Unsettled files place) :=
  inferInstanceAs (Decidable (_ ∨ _ ∧ _))

instance (project : Project) (here : Place) (tier : Tier) :
    Decidable (project.Unhindered here tier) :=
  inferInstanceAs (Decidable (∀ path ∈ _, ∀ other ∈ _, _))

/-- Where a tier is built. -/
def ground (project : Project) (files : FileTree) (tier : Tier) : Ground where
  here := files.here
  own := Within files.here (project.outputsOf tier)
  onWay := Leading files.here (project.outputsOf tier)
  temporary place := ∃ path ∈ project.targets tier, place = path.temporaryPlace files.here

variable {project : Project} {files : FileTree} {differs : Place → Prop} {tier : Tier}
  {path : Path} {place : Place}

/-- A path that avoids the insides of directories passes through none of them. -/
theorem not_within_passage {directories : List Path} {here : Place}
    (havoids : path.Avoids here differs)
    (hdiffers : ∀ place, Within here directories place → differs place)
    (hplace : place ∈ path.passage here) : ¬ Within here directories place := by
  intro hwithin
  rcases List.mem_cons.1 hplace with rfl | hway
  · exact havoids.goal (hdiffers _ hwithin)
  · obtain ⟨before, after, hnames, rfl⟩ := Place.exists_of_mem_way hway
    -- The names after the place lead further inside, up to a double dot if there is one.
    have hinside (more : List String) (hmore : ".." ∉ more) :
        differs ((path.start here).goal (before ++ more)) := by
      rw [Place.goal_append, Place.goal_eq_append hmore]
      exact hdiffers _ (hwithin.append more)
    by_cases hup : ".." ∈ after
    · obtain ⟨plain, rest, rfl, hplain⟩ := List.eq_append_cons_of_mem hup
      rw [← List.append_assoc] at hnames
      exact havoids.up _ _ hnames (hinside plain hplain)
    · refine havoids.goal ?_
      rw [Path.place, hnames]
      exact hinside after hup

/-- Mode files whose names have no double dots keep away from places where they do not lie. -/
theorem modeFiles_avoid
    (hmodes : ∀ entry ∈ project.settings.tiers, ∀ modes ∈ entry.2.modes, ∀ mode ∈ modes.2,
      ".." ∉ (project.root / mode.2 : Path).names ∧
        ¬ differs ((project.root / mode.2 : Path).place files.here)) :
    ∀ entry ∈ project.settings.tiers, ∀ modes ∈ entry.2.modes, ∀ mode ∈ modes.2,
      (project.root / mode.2 : Path).Avoids files.here differs :=
  fun entry hentry modes hmem mode hmode =>
    avoids_of_not_mem (hmodes entry hentry modes hmem mode hmode).1
      (hmodes entry hentry modes hmem mode hmode).2

theorem Separate.tidy (hseparate : project.Separate files differs)
    (hdiffers : ∀ place, Within files.here project.outputs place → differs place) :
    project.Tidy files where
  wellFormed := hseparate.wellFormed
  disjoint := hseparate.apart.imp fun hapart =>
    ⟨fun hbelow => hapart.right _ List.mem_cons_self
        (within_singleton_iff.2 ⟨hbelow, hapart.ne.symm⟩),
      fun hbelow => hapart.left _ List.mem_cons_self
        (within_singleton_iff.2 ⟨hbelow, hapart.ne⟩)⟩
  inside := hseparate.inside
  patterns entry hentry text htext := (hseparate.patterns entry hentry text htext).file
  modeFiles entry hentry modes hmodes mode hmode _ :=
    not_within_passage (hseparate.modeFiles entry hentry modes hmodes mode hmode) hdiffers

/-- If every pattern is a plain path, it matters only where that path ends. -/
theorem tidy_of_literal (hfiles : files.WellFormed)
    (hdisjoint : project.outputs.Pairwise fun first second =>
      ¬ first.place files.here <+: second.place files.here ∧
        ¬ second.place files.here <+: first.place files.here)
    (hinside : ∀ entry ∈ project.settings.tiers, ∀ path ∈ project.modeSheets entry.2,
      path.StaysIn files.here (project.sheetDirectory entry.2))
    (hpatterns : ∀ entry ∈ project.settings.tiers, ∀ text ∈ entry.2.included ++ entry.2.sources,
      (FileTree.patternIn project.root text).anchor = (project.root / text : Path).anchor ∧
        (FileTree.patternIn project.root text).steps =
          (project.root / text : Path).names.map .name ∧
        "." ∉ (project.root / text : Path).names ∧
        ¬ Within files.here project.outputs ((project.root / text : Path).place files.here))
    (hmodeFiles : ∀ entry ∈ project.settings.tiers, ∀ modes ∈ entry.2.modes, ∀ mode ∈ modes.2,
      ∀ place ∈ (project.root / mode.2 : Path).passage files.here,
        ¬ Within files.here project.outputs place) : project.Tidy files where
  wellFormed := hfiles
  disjoint := hdisjoint
  inside := hinside
  patterns entry hentry text htext names hspells := by
    obtain ⟨hanchor, hsteps, hplain, hout⟩ := hpatterns entry hentry text htext
    rw [hsteps] at hspells
    rw [hanchor, hspells.eq_of_literal hplain]
    exact hout
  modeFiles := hmodeFiles

theorem isTarget_of_mem_targets (hpath : path ∈ project.targets tier) : path.IsTarget := by
  have hsheet (directory : Path) (name : String) : (sheetPath directory name).IsTarget :=
    isTarget_below directory name ".css" (by decide) (by decide) (by decide)
  have hdocument (directory : Path) (name : String) : (directory / (name ++ ".json")).IsTarget :=
    isTarget_below directory name ".json" (by decide) (by decide) (by decide)
  simp only [targets, modeSheets, documents, List.mem_append, List.mem_flatMap, List.mem_map,
    List.mem_cons] at hpath
  rcases hpath with (⟨entry, -, name, -, rfl⟩ | ⟨category, -, rfl⟩) | rfl | hdocuments
  · exact hsheet _ _
  · exact hsheet _ _
  · exact hsheet _ "index"
  · split at hdocuments
    · rcases List.mem_cons.1 hdocuments with rfl | hlast
      · exact hdocument _ "tokens"
      · obtain rfl := List.mem_singleton.1 hlast
        exact hdocument _ "typography"
    · simp at hdocuments

theorem parent_below {directory : Path} {text name : String} (htext : ofText text = ⟨"", [name]⟩) :
    (directory / text : Path).parent = directory := by
  change (directory.below (ofText text)).parent = directory
  rw [htext]
  simp [below, isAbsolute, parent]

/-- Every file of a tier stays in one of its directories. -/
theorem Separate.exists_staysIn (hseparate : project.Separate files differs) {key : String}
    (htier : (key, tier) ∈ project.settings.tiers) (hpath : path ∈ project.targets tier) :
    ∃ directory ∈ project.outputsOf tier, path.StaysIn files.here directory := by
  have hsheets : project.sheetDirectory tier ∈ project.outputsOf tier := List.mem_cons_self
  rw [targets, List.mem_append, List.mem_append, List.mem_map, List.mem_cons] at hpath
  rcases hpath with (hmode | ⟨category, hcategory, rfl⟩) | rfl | hdocument
  · exact ⟨_, hsheets, hseparate.inside _ htier _ hmode⟩
  · have hplain : ∀ category ∈ Category.all,
        ofText (category ++ ".css") = ⟨"", [category ++ ".css"]⟩ := by decide
    exact ⟨_, hsheets, staysIn_of_parent_eq
      (parent_below (hplain category (List.mem_filter.1 hcategory).1))⟩
  · exact ⟨_, hsheets, staysIn_of_parent_eq (parent_below (by rfl))⟩
  · rw [documents] at hdocument
    split at hdocument
    · next henabled =>
        have hfigma : project.figmaDirectory tier ∈ project.outputsOf tier := by
          simp [outputsOf, henabled]
        refine ⟨_, hfigma, staysIn_of_parent_eq ?_⟩
        rcases List.mem_cons.1 hdocument with rfl | hlast
        · exact parent_below (by rfl)
        · obtain rfl := List.mem_singleton.1 hlast
          exact parent_below (by rfl)
    · simp at hdocument

theorem Separate.holds (hseparate : project.Separate files differs) {key : String}
    (htier : (key, tier) ∈ project.settings.tiers) (hpath : path ∈ project.targets tier) :
    (project.ground files tier).Holds path := by
  obtain ⟨directory, hdirectory, hstays⟩ := hseparate.exists_staysIn htier hpath
  have hname := (isTarget_of_mem_targets hpath).namesFile
  -- What lies in the file's directory lies inside the output directory.
  have hchild (name : String) :
      Within files.here (project.outputsOf tier) (path.parent.place files.here ++ [name]) := by
    obtain ⟨more, hmore⟩ := hstays.below
    refine ⟨directory, hdirectory, hmore ▸ ⟨more ++ [name], by simp⟩, ?_⟩
    rw [← hmore, List.append_assoc]
    simp
  refine ⟨hname, ?_, ?_, ?_⟩
  · change Within _ _ (path.place files.here)
    rw [hname.place_eq]
    exact hchild _
  · change Within _ _ (path.temporaryPlace files.here)
    rw [temporaryPlace_eq]
    exact hchild _
  · intro place hway
    rcases hstays.way place hway with hleading | hbelow
    · exact .inr ⟨directory, hdirectory, List.mem_cons_of_mem _ hleading⟩
    · by_cases heq : place = directory.place files.here
      · exact .inr ⟨directory, hdirectory, heq ▸ List.mem_cons_self⟩
      · exact .inl ⟨directory, hdirectory, hbelow, heq⟩

theorem Unhindered.frees (hunhindered : project.Unhindered files.here tier)
    (hpath : path ∈ project.targets tier) : (project.ground files tier).Frees path where
  beside := ⟨path, hpath, rfl⟩
  target := by
    rintro ⟨other, -, heq⟩
    exact (isTarget_of_mem_targets hpath).place_ne_temporaryPlace other _ heq
  way := by
    rintro place hway ⟨other, hother, rfl⟩
    exact hunhindered path hpath other hother hway

/-! ### The grounds of several tiers -/

theorem mem_outputs {key : String} (htier : (key, tier) ∈ project.settings.tiers) {directory : Path}
    (hdirectory : directory ∈ project.outputsOf tier) : directory ∈ project.outputs :=
  List.mem_flatMap.2 ⟨_, htier, hdirectory⟩

/-- The directories of different tiers are apart. -/
theorem Separate.apart_of_ne (hseparate : project.Separate files differs)
    {first second : String × Tier} (hfirst : first ∈ project.settings.tiers)
    (hsecond : second ∈ project.settings.tiers) (hne : first ≠ second) {directory other : Path}
    (hdirectory : directory ∈ project.outputsOf first.2)
    (hother : other ∈ project.outputsOf second.2) : Apart files.here directory other := by
  have hpairs := (List.pairwise_flatMap.1 hseparate.apart).2
  have hsymm : Std.Symm fun first second : String × Tier => ∀ directory ∈ project.outputsOf first.2,
      ∀ other ∈ project.outputsOf second.2, Apart files.here directory other :=
    ⟨fun _ _ h directory hdirectory other hother => (h other hother directory hdirectory).symm⟩
  exact hpairs.forall hfirst hsecond hne directory hdirectory other hother

/-- What lies inside a directory of one tier, or leads to one, lies inside none of another. -/
theorem Separate.not_within_of_ne (hseparate : project.Separate files differs) {key name : String}
    {foreign : Tier} (htier : (key, tier) ∈ project.settings.tiers)
    (hforeign : (name, foreign) ∈ project.settings.tiers) (hne : (key, tier) ≠ (name, foreign))
    (hplace : Within files.here (project.outputsOf tier) place ∨
      Leading files.here (project.outputsOf tier) place) :
    ¬ Within files.here (project.outputsOf foreign) place := by
  rintro ⟨other, hother, hinside⟩
  have hwithin : Within files.here [other] place := within_singleton_iff.2 hinside
  rcases hplace with ⟨directory, hdirectory, hplace⟩ | ⟨directory, hdirectory, hplace⟩
  · exact (hseparate.apart_of_ne htier hforeign hne hdirectory hother).not_within
      (within_singleton_iff.2 hplace) hwithin
  · exact (hseparate.apart_of_ne htier hforeign hne hdirectory hother).left _ hplace hwithin

/-- What leads to a directory of a tier lies inside none, or inside one of the same tier. -/
theorem Separate.own_of_leading (hseparate : project.Separate files differs) {key : String}
    (htier : (key, tier) ∈ project.settings.tiers)
    (hplace : Leading files.here (project.outputsOf tier) place)
    (hwithin : Within files.here project.outputs place) :
    Within files.here (project.outputsOf tier) place := by
  obtain ⟨directory, hdirectory, hinside⟩ := hwithin
  obtain ⟨⟨name, other⟩, hother, hdirectory⟩ := List.mem_flatMap.1 hdirectory
  by_cases heq : (key, tier) = (name, other)
  · obtain ⟨-, rfl⟩ := Prod.mk.inj heq
    exact ⟨directory, hdirectory, hinside⟩
  · have hnot := hseparate.not_within_of_ne htier hother heq (.inr hplace)
    exact absurd ⟨directory, hdirectory, hinside⟩ hnot

/-! ### Trees that are read alike -/

/-- A tree that differs from the first one inside output directories, and by directories that
were made on the way there. -/
structure Around (project : Project) (start tree : FileTree) : Prop where
  wellFormed : tree.WellFormed
  here : tree.here = start.here
  outside : ∀ place, ¬ Within start.here project.outputs place →
    tree.node? place = start.node? place ∨
      (Leading start.here project.outputs place ∧ start.node? place = none ∧
        tree.node? place = some .directory)

variable {start tree first second : FileTree}

theorem Around.refl (hstart : start.WellFormed) : project.Around start start where
  wellFormed := hstart
  here := rfl
  outside _ _ := .inl rfl

/-- The places that differ in such a tree have no files but inside the output directories. -/
theorem Around.within_of_hasFile (haround : project.Around start tree)
    (hplace : project.Unsettled start place) (hfile : tree.HasFile place) :
    Within start.here project.outputs place := by
  by_contra hwithin
  obtain ⟨-, hnone⟩ := hplace.resolve_left hwithin
  rcases haround.outside place hwithin with hsame | ⟨-, -, hdirectory⟩
  · obtain ⟨node, hnode, -⟩ := hfile
    rw [hsame, hnone] at hnode
    simp at hnode
  · exact FileTree.not_hasFile_of_directory hdirectory hfile

/-- Below a place that differs nothing else lies. -/
theorem Around.unsettled_below (hstart : start.WellFormed) (haround : project.Around start tree)
    {name : String} (hplace : project.Unsettled start place)
    (hnode : tree.node? (place ++ [name]) ≠ none) : project.Unsettled start (place ++ [name]) := by
  rcases hplace with hwithin | ⟨-, hnone⟩
  · exact .inl (hwithin.append [name])
  · by_cases hwithin : Within start.here project.outputs (place ++ [name])
    · exact .inl hwithin
    · have hnone' : start.node? (place ++ [name]) = none := by
        by_contra hsome
        obtain ⟨node, hsome⟩ := Option.ne_none_iff_exists'.1 hsome
        rw [hstart.above _ _ _ hsome] at hnone
        simp at hnone
      rcases haround.outside _ hwithin with hsame | ⟨hleading, -, -⟩
      · rw [hsame] at hnode
        exact absurd hnone' hnode
      · exact .inr ⟨hleading, hnone'⟩

theorem Around.agreeBut (hstart : start.WellFormed) (hfirst : project.Around start first)
    (hsecond : project.Around start second) :
    FileTree.AgreeBut (project.Unsettled start) first second where
  wellFormed := ⟨hfirst.wellFormed, hsecond.wellFormed⟩
  here := hfirst.here.trans hsecond.here.symm
  same place hsettled := by
    obtain ⟨hwithin, hmissing⟩ := not_or.1 hsettled
    have hsame {tree : FileTree} (haround : project.Around start tree) :
        tree.node? place = start.node? place :=
      (haround.outside place hwithin).resolve_right fun h => hmissing ⟨h.1, h.2.1⟩
    rw [hsame hfirst, hsame hsecond]
  below place name hplace hnode := hnode.elim (hfirst.unsettled_below hstart hplace)
    (hsecond.unsettled_below hstart hplace)

/-- Writing a file of a tier stays around the first tree. -/
theorem Around.writeWhole (haround : project.Around start tree) {entry : String × Tier}
    (hentry : entry ∈ project.settings.tiers) (hholds : (project.ground start entry.2).Holds path)
    (content : String) : project.Around start (tree.writeWhole path content).2 := by
  obtain ⟨hedited, -⟩ := FileTree.writeWhole_spec haround.wellFormed path content
  refine ⟨hedited.wellFormed, hedited.here.trans haround.here, fun place hwithin => ?_⟩
  have hown : ¬ Within start.here (project.outputsOf entry.2) place := fun h =>
    hwithin (h.mono fun _ => mem_outputs hentry)
  have hcases := (tree.editOf path content).apply_cases tree.node? place
  rw [← hedited.node?] at hcases
  rcases hcases with ⟨h, -⟩ | ⟨-, h, -⟩ | ⟨-, -, hmade, h⟩ | ⟨-, -, -, h⟩
  · rw [(FileTree.written_editOf h).1, haround.here] at hown
    exact absurd hholds.target hown
  · rw [(FileTree.cleared_editOf h).1, haround.here] at hown
    exact absurd hholds.beside hown
  · rw [FileTree.made_editOf] at hmade
    obtain ⟨hway, hclear⟩ := FileTree.mem_way_of_mem_openWay hmade
    rw [haround.here] at hway
    obtain ⟨directory, hdirectory, hpassage⟩ := (hholds.way place hway).resolve_left hown
    rcases haround.outside place hwithin with hsame | ⟨hleading, hnone, -⟩
    · cases hnode : start.node? place with
      | none => exact .inr ⟨⟨directory, mem_outputs hentry hdirectory, hpassage⟩, rfl, h⟩
      | some node =>
          have hkind : node = .directory := by
            by_contra hfile
            exact hclear ⟨node, hsame.trans hnode, hfile⟩
          exact .inl (h.trans (by rw [hkind]))
    · exact .inr ⟨hleading, hnone, h⟩
  · rw [h]
    exact haround.outside place hwithin

end Project

end DesignTokens
