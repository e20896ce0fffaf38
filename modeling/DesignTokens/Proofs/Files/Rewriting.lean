import Mathlib.Data.List.TakeWhile
import DesignTokens.Proofs.Files.Writing

/-!
# Writing the same files again

A writer has a ground: places of its own, and the way to them. What it writes there does not
depend on what stands elsewhere. If the same files are written twice, from trees that agree
on the ground or the second time from what the first time left, then both times the same
writes succeed and the ground looks the same in the end. The second time each place of the
ground has either been written again or still stands as the first time left it; that this is
enough follows from what writing keeps: a directory stays one, and a file stays one too
unless it was one that is written beside another.
-/

namespace DesignTokens

/-- The places of one writer, those on the way to them, and those of the files that are
written beside others. -/
structure Ground where
  here : Place
  own : Place → Prop
  onWay : Place → Prop
  temporary : Place → Prop

namespace Ground

/-- The path names a file of the ground, and the way there leads through nothing else. -/
structure Holds (ground : Ground) (path : Path) : Prop where
  namesFile : path.NamesFile
  target : ground.own (path.place ground.here)
  beside : ground.own (path.temporaryPlace ground.here)
  way : ∀ place ∈ path.parent.way ground.here, ground.own place ∨ ground.onWay place

/-- No file that is written beside another is in the way of this path. -/
structure Frees (ground : Ground) (path : Path) : Prop where
  beside : ground.temporary (path.temporaryPlace ground.here)
  target : ¬ ground.temporary (path.place ground.here)
  way : ∀ place ∈ path.parent.way ground.here, ¬ ground.temporary place

end Ground

/-- What lies at a place after a change: the new file, nothing, a directory or what was
there before. -/
theorem Edit.apply_cases (edit : Edit) (before : Place → Option FileNode) (place : Place) :
    (edit.written = some place ∧ edit.apply before place = some (.text edit.content)) ∨
      (edit.written ≠ some place ∧ edit.cleared = some place ∧ edit.apply before place = none) ∨
      (edit.written ≠ some place ∧ edit.cleared ≠ some place ∧ place ∈ edit.made ∧
        edit.apply before place = some .directory) ∨
      (edit.written ≠ some place ∧ edit.cleared ≠ some place ∧ place ∉ edit.made ∧
        edit.apply before place = before place) := by
  rw [Edit.apply]
  split_ifs with hwritten hcleared hmade
  · exact .inl ⟨hwritten, rfl⟩
  · exact .inr (.inl ⟨hwritten, hcleared, rfl⟩)
  · exact .inr (.inr (.inl ⟨hwritten, hcleared, hmade, rfl⟩))
  · exact .inr (.inr (.inr ⟨hwritten, hcleared, hmade, rfl⟩))

namespace FileTree

variable {tree : FileTree} {path : Path} {content : String} {place : Place}

/-! ### The edit of a write -/

@[simp]
theorem made_editOf (tree : FileTree) (path : Path) (content : String) :
    (tree.editOf path content).made =
      tree.openWay (path.parent.start tree.here) path.parent.names := by
  simp only [editOf]
  split
  · rfl
  · split <;> rfl

theorem cleared_editOf (hcleared : (tree.editOf path content).cleared = some place) :
    place = path.temporaryPlace tree.here ∧
      tree.openWay (path.parent.start tree.here) path.parent.names = path.parent.way tree.here ∧
      ¬ tree.DirectoryWith (path.parent.way tree.here) place := by
  simp only [editOf] at hcleared
  split at hcleared
  · simp at hcleared
  · next hopen =>
      obtain ⟨hway, hfree⟩ := not_or.1 hopen
      rw [not_not] at hway
      rw [hway] at hfree
      have hplace : path.temporaryPlace tree.here = place := by
        split at hcleared <;> exact Option.some.inj hcleared
      exact ⟨hplace.symm, hway, hplace ▸ hfree⟩

theorem written_editOf (hwritten : (tree.editOf path content).written = some place) :
    place = path.place tree.here ∧
      tree.openWay (path.parent.start tree.here) path.parent.names = path.parent.way tree.here ∧
      ¬ tree.DirectoryWith (path.parent.way tree.here) place := by
  simp only [editOf] at hwritten
  split at hwritten
  · simp at hwritten
  · next hopen =>
      have hway := not_not.1 (not_or.1 hopen).1
      rw [hway] at hwritten
      split at hwritten
      · simp at hwritten
      · next hfree =>
          have hplace := Option.some.inj hwritten
          exact ⟨hplace.symm, hway, hplace ▸ hfree⟩

theorem mem_way_of_mem_openWay {names : List String} {first : Place}
    (hmem : place ∈ tree.openWay first names) : place ∈ first.way names ∧ ¬ tree.HasFile place :=
  ⟨(List.takeWhile_prefix _).subset hmem, by simpa using List.mem_takeWhile_imp hmem⟩

/-! ### What writing keeps -/

/-- Directories remain, and so do files apart from those written beside others; in the place
of such a one no directory is made. Files are new only where `opened` says so. -/
structure Keeps (ground : Ground) (opened : Place → Prop) (first last : FileTree) : Prop where
  directory : ∀ place, first.node? place = some .directory → last.node? place = some .directory
  file : ∀ place, first.HasFile place → last.HasFile place ∨ ground.temporary place
  temporary : ∀ place, ground.temporary place → first.node? place ≠ some .directory →
    last.node? place ≠ some .directory
  fresh : ∀ place, ¬ first.HasFile place → last.HasFile place → opened place

namespace Keeps

variable {ground : Ground} {opened more : Place → Prop} {first middle last : FileTree}

theorem refl (tree : FileTree) : Keeps ground opened tree tree where
  directory _ h := h
  file _ h := .inl h
  temporary _ _ h := h
  fresh _ h h' := absurd h' h

theorem trans (hfirst : Keeps ground opened first middle) (hlast : Keeps ground opened middle last) :
    Keeps ground opened first last where
  directory _ h := hlast.directory _ (hfirst.directory _ h)
  file _ h := (hfirst.file _ h).elim (hlast.file _) .inr
  temporary _ ht h := hlast.temporary _ ht (hfirst.temporary _ ht h)
  fresh place h h' := by
    by_cases hmiddle : middle.HasFile place
    · exact hfirst.fresh _ h hmiddle
    · exact hlast.fresh _ hmiddle h'

theorem mono (hkeeps : Keeps ground opened first last) (himp : ∀ place, opened place → more place) :
    Keeps ground more first last :=
  { hkeeps with fresh := fun _ h h' => himp _ (hkeeps.fresh _ h h') }

end Keeps

/-- A directory remains when a file is written. -/
theorem directory_writeWhole (htree : tree.WellFormed)
    (hplace : tree.node? place = some .directory) :
    (tree.writeWhole path content).2.node? place = some .directory := by
  obtain ⟨hedited, -⟩ := writeWhole_spec htree path content
  rw [hedited.node?]
  rcases (tree.editOf path content).apply_cases tree.node? place with
    ⟨hwritten, -⟩ | ⟨-, hcleared, -⟩ | ⟨-, -, -, h⟩ | ⟨-, -, -, h⟩
  · exact absurd (.inr hplace) (written_editOf hwritten).2.2
  · exact absurd (.inr hplace) (cleared_editOf hcleared).2.2
  · exact h
  · exact h.trans hplace

/-- The open part of the way to a file consists of directories afterwards. -/
theorem directory_of_mem_openWay (htree : tree.WellFormed)
    (hopen : place ∈ tree.openWay (path.parent.start tree.here) path.parent.names) :
    (tree.writeWhole path content).2.node? place = some .directory := by
  obtain ⟨hedited, -⟩ := writeWhole_spec htree path content
  have hway := (mem_way_of_mem_openWay hopen).1
  rw [hedited.node?]
  rcases (tree.editOf path content).apply_cases tree.node? place with
    ⟨hwritten, -⟩ | ⟨-, hcleared, -⟩ | ⟨-, -, -, h⟩ | ⟨-, -, hmade, -⟩
  · exact absurd (.inl hway) (written_editOf hwritten).2.2
  · exact absurd (.inl hway) (cleared_editOf hcleared).2.2
  · exact h
  · rw [made_editOf] at hmade
    exact absurd hopen hmade

/-- On the way to a file that was written there are directories. -/
theorem directory_of_writeWhole (htree : tree.WellFormed)
    (hdone : (tree.writeWhole path content).1 = .ok ()) (hplace : place ∈ path.parent.way tree.here) :
    (tree.writeWhole path content).2.node? place = some .directory := by
  obtain ⟨-, hok⟩ := writeWhole_spec htree path content
  obtain ⟨target, htarget⟩ := Option.isSome_iff_exists.1 (hok.1 hdone)
  obtain ⟨-, hopen, -⟩ := written_editOf htarget
  rw [← hopen] at hplace
  exact directory_of_mem_openWay htree hplace

theorem keeps_writeWhole {ground : Ground} (htree : tree.WellFormed)
    (hhere : tree.here = ground.here) (hfrees : ground.Frees path) :
    Keeps ground (· = path.place ground.here) tree (tree.writeWhole path content).2 := by
  obtain ⟨hedited, -⟩ := writeWhole_spec htree path content
  have hcases := (tree.editOf path content).apply_cases tree.node?
  simp only [← hedited.node?, made_editOf] at hcases
  constructor
  · exact fun place hplace => directory_writeWhole htree hplace
  · intro place hplace
    rcases hcases place with ⟨-, h⟩ | ⟨-, hcleared, -⟩ | ⟨-, -, hmade, -⟩ | ⟨-, -, -, h⟩
    · exact .inl ⟨_, h, by simp⟩
    · rw [(cleared_editOf hcleared).1, hhere]
      exact .inr hfrees.beside
    · exact absurd hplace (mem_way_of_mem_openWay hmade).2
    · exact .inl ((hasFile_congr h).2 hplace)
  · intro place htemporary hplace
    rcases hcases place with ⟨-, h⟩ | ⟨-, -, h⟩ | ⟨-, -, hmade, -⟩ | ⟨-, -, -, h⟩
    · simp [h]
    · simp [h]
    · have hway := (mem_way_of_mem_openWay hmade).1
      rw [hhere] at hway
      exact absurd htemporary (hfrees.way _ hway)
    · rwa [h]
  · intro place hplace hfile
    rcases hcases place with ⟨hwritten, -⟩ | ⟨-, -, h⟩ | ⟨-, -, -, h⟩ | ⟨-, -, -, h⟩
    · rw [← hhere]
      exact (written_editOf hwritten).1
    · simp [HasFile, h] at hfile
    · exact absurd hfile (not_hasFile_of_directory h)
    · exact absurd ((hasFile_congr h).1 hfile) hplace

/-! ### Two runs side by side -/

/-- Two trees are open equally far if the second has no file on the open way of the first, and
one wherever the first has one. -/
theorem openWay_eq {first second : FileTree} {start : Place} {names : List String}
    (hopen : ∀ place ∈ first.openWay start names, ¬ second.HasFile place)
    (hclosed : ∀ place ∈ start.way names, first.HasFile place → second.HasFile place) :
    second.openWay start names = first.openWay start names := by
  unfold openWay at hopen ⊢
  generalize start.way names = way at hopen hclosed ⊢
  induction way with
  | nil => rfl
  | cons place rest ih =>
      by_cases hfile : first.HasFile place
      · simp [hfile, hclosed place List.mem_cons_self hfile]
      · have hclear : ¬ second.HasFile place := hopen place (by simp [hfile])
        have hrest := ih (fun other hother => hopen other (by simp [hfile, hother]))
          fun other hother => hclosed other (List.mem_cons_of_mem _ hother)
        simp [hfile, hclear, hrest]

/-- Two edits are the same if both trees have the same kinds of things at the places where
the file is to go: the first file on the way, the file beside the target, and the target. -/
theorem editOf_eq {first second : FileTree} (hhere : first.here = second.here)
    (hopen : ∀ place ∈ first.openWay (path.parent.start first.here) path.parent.names,
      ¬ second.HasFile place)
    (hclosed : ∀ place ∈ path.parent.way first.here, first.HasFile place → second.HasFile place)
    (hbeside : first.openWay (path.parent.start first.here) path.parent.names =
      path.parent.way first.here → (first.node? (path.temporaryPlace first.here) = some .directory ↔
        second.node? (path.temporaryPlace first.here) = some .directory))
    (htarget : first.openWay (path.parent.start first.here) path.parent.names =
      path.parent.way first.here →
        ¬ first.DirectoryWith (path.parent.way first.here) (path.temporaryPlace first.here) →
        path.place first.here ∉ path.parent.way first.here →
        (first.node? (path.place first.here) = some .directory ↔
          second.node? (path.place first.here) = some .directory))
    (content : String) : first.editOf path content = second.editOf path content := by
  have hway := openWay_eq hopen hclosed
  have hrest (hall : first.openWay (path.parent.start first.here) path.parent.names =
      path.parent.way first.here) :
      (first.DirectoryWith (path.parent.way first.here) (path.temporaryPlace first.here) ↔
        second.DirectoryWith (path.parent.way first.here) (path.temporaryPlace first.here)) := by
    rw [DirectoryWith, DirectoryWith, hbeside hall]
  simp only [editOf, ← hhere, hway]
  by_cases hall : first.openWay (path.parent.start first.here) path.parent.names =
      path.parent.way first.here
  · simp only [hall, hrest hall]
    by_cases hfree : second.DirectoryWith (path.parent.way first.here)
        (path.temporaryPlace first.here)
    · simp [hfree]
    · have hsame : first.DirectoryWith (path.parent.way first.here) (path.place first.here) ↔
          second.DirectoryWith (path.parent.way first.here) (path.place first.here) := by
        by_cases hmem : path.place first.here ∈ path.parent.way first.here
        · simp [DirectoryWith, hmem]
        · rw [DirectoryWith, DirectoryWith,
            htarget hall (mt (hrest hall).1 hfree) hmem]
      simp [hfree, hsame]
  · simp [hall]

/-- One writer at work twice, first from `base` and then from `other`, where the first time
ends in `last`: the state of the first run beside that of the second. A place of the writer
is the same in both, or the second run finds it as the first one left it. Elsewhere both have
what they began with or made a directory on the way. -/
structure Tracks (ground : Ground) (again : Prop) (base other last first second : FileTree) :
    Prop where
  wellFormed : first.WellFormed ∧ second.WellFormed
  here : first.here = ground.here ∧ second.here = ground.here
  own : ∀ place, ground.own place →
    second.node? place = first.node? place ∨ again ∧ second.node? place = last.node? place
  outside : ∀ place, ¬ ground.own place →
    (first.node? place = base.node? place ∧ second.node? place = other.node? place) ∨
      (ground.onWay place ∧ base.node? place = none ∧ first.node? place = some .directory ∧
        second.node? place = some .directory)

/-- On the way to the ground the second run begins with what the first one begins with, but
for directories that are there already. -/
def StartsAlike (ground : Ground) (base other : FileTree) : Prop :=
  ∀ place, ground.onWay place → ¬ ground.own place → other.node? place = base.node? place ∨
    base.node? place = none ∧ other.node? place = some .directory

namespace Tracks

variable {ground : Ground} {again : Prop} {base other last first second : FileTree}
  {opened : Place → Prop}

theorem hasFile_iff (htracks : Tracks ground again base other last first second)
    (hstart : StartsAlike ground base other) (hway : ground.onWay place)
    (hown : ¬ ground.own place) : first.HasFile place ↔ second.HasFile place := by
  rcases htracks.outside place hown with ⟨hfirst, hsecond⟩ | ⟨-, -, hfirst, hsecond⟩
  · rw [hasFile_congr hfirst, hasFile_congr hsecond]
    rcases hstart place hway hown with hsame | ⟨hnone, hdirectory⟩
    · rw [hasFile_congr hsame]
    · simp [HasFile, hnone, hdirectory]
  · rw [HasFile, HasFile, hfirst, hsecond]

/-- Where the first run is clear on the way, it began in both runs with a directory or there was
nothing. -/
theorem directory_or_none (htracks : Tracks ground again base other last first second)
    (hstart : StartsAlike ground base other) (hway : ground.onWay place)
    (hown : ¬ ground.own place) (hclear : ¬ first.HasFile place) :
    (base.node? place = some .directory ∧ other.node? place = some .directory) ∨
      base.node? place = none := by
  rcases htracks.outside place hown with ⟨hbase, -⟩ | ⟨-, hnone, -⟩
  · rcases none_or_directory hclear with hnone | hdirectory
    · exact .inr (hbase.symm.trans hnone)
    · have hbegan : base.node? place = some .directory := hbase.symm.trans hdirectory
      rcases hstart place hway hown with hsame | ⟨hnone, -⟩
      · exact .inl ⟨hbegan, hsame.trans hbegan⟩
      · exact .inr hnone
  · exact .inr hnone

/-- The second run finds no file where the first one makes a directory. -/
theorem not_hasFile_of_mem_openWay (htracks : Tracks ground again base other last first second)
    (hstart : StartsAlike ground base other) (hholds : ground.Holds path)
    (hkeeps : again → Keeps ground opened (first.writeWhole path content).2 last)
    (hopen : place ∈ first.openWay (path.parent.start first.here) path.parent.names) :
    ¬ second.HasFile place := by
  obtain ⟨hway, hclear⟩ := mem_way_of_mem_openWay hopen
  by_cases hown : ground.own place
  · rcases htracks.own place hown with hsame | ⟨hagain, hlast⟩
    · rwa [hasFile_congr hsame]
    · have hmade := (hkeeps hagain).directory place
        (directory_of_mem_openWay htracks.wellFormed.1 hopen)
      exact not_hasFile_of_directory (hlast.trans hmade)
  · rw [htracks.here.1] at hway
    have hground := (hholds.way place hway).resolve_left hown
    exact mt (htracks.hasFile_iff hstart hground hown).2 hclear

/-- A file on the way stops the second run as well as the first. -/
theorem hasFile_of_mem_way (htracks : Tracks ground again base other last first second)
    (hstart : StartsAlike ground base other) (hholds : ground.Holds path)
    (hfrees : again → ground.Frees path) (hlater : again → Keeps ground opened first last)
    (hway : place ∈ path.parent.way ground.here) (hfile : first.HasFile place) :
    second.HasFile place := by
  by_cases hown : ground.own place
  · rcases htracks.own place hown with hsame | ⟨hagain, hlast⟩
    · rwa [hasFile_congr hsame]
    · rw [hasFile_congr hlast]
      exact ((hlater hagain).file _ hfile).resolve_right ((hfrees hagain).way _ hway)
  · have hground := (hholds.way place hway).resolve_left hown
    exact (htracks.hasFile_iff hstart hground hown).1 hfile

/-- A place of the writer is a directory in both runs or in none, if the first run makes no
directory there later. -/
theorem directory_iff (htracks : Tracks ground again base other last first second)
    (hlater : again → Keeps ground opened first last) (hown : ground.own place)
    (hnever : again → first.node? place ≠ some .directory → last.node? place ≠ some .directory) :
    first.node? place = some .directory ↔ second.node? place = some .directory := by
  rcases htracks.own place hown with hsame | ⟨hagain, hlast⟩
  · rw [hsame]
  · rw [hlast]
    exact ⟨(hlater hagain).directory place, not_imp_not.1 (hnever hagain)⟩

/-- Both runs make the same edit when they write the same file. -/
theorem editOf_eq (htracks : Tracks ground again base other last first second)
    (hstart : StartsAlike ground base other) (hholds : ground.Holds path)
    (hfrees : again → ground.Frees path)
    (hkeeps : again → Keeps ground opened (first.writeWhole path content).2 last) :
    first.editOf path content = second.editOf path content := by
  have hhere := htracks.here.1
  have hlater (hagain : again) : Keeps ground (fun _ => True) first last :=
    ((keeps_writeWhole htracks.wellFormed.1 hhere (hfrees hagain)).mono
      fun _ _ => trivial).trans ((hkeeps hagain).mono fun _ _ => trivial)
  apply FileTree.editOf_eq (hhere.trans htracks.here.2.symm)
  · intro place hopen
    exact htracks.not_hasFile_of_mem_openWay hstart hholds hkeeps hopen
  · intro place hway hfile
    exact htracks.hasFile_of_mem_way hstart hholds hfrees hlater (hhere ▸ hway) hfile
  · intro hopen
    rw [hhere]
    exact htracks.directory_iff hlater hholds.beside fun hagain =>
      (hlater hagain).temporary _ (hfrees hagain).beside
  · intro hopen hfree hoff
    rw [hhere]
    refine htracks.directory_iff hlater hholds.target fun hagain hdirectory => ?_
    -- The first run writes the file, which then stays one.
    have hwritten : (first.editOf path content).written = some (path.place ground.here) := by
      rw [← hhere] at hdirectory ⊢
      have htarget : ¬ first.DirectoryWith (path.parent.way first.here) (path.place first.here) :=
        not_or.2 ⟨hoff, hdirectory⟩
      simp [editOf, hopen, hfree, htarget]
    have hfile : (first.writeWhole path content).2.HasFile (path.place ground.here) := by
      rw [HasFile, (writeWhole_spec htracks.wellFormed.1 path content).1.node?]
      exact ⟨_, if_pos hwritten, by simp⟩
    have hlast := ((hkeeps hagain).file _ hfile).resolve_right (hfrees hagain).target
    exact fun h => not_hasFile_of_directory h hlast

/-- A write takes both runs on: it succeeds in both or in none. -/
theorem writeWhole (htracks : Tracks ground again base other last first second)
    (hstart : StartsAlike ground base other) (hholds : ground.Holds path)
    (hfrees : again → ground.Frees path)
    (hkeeps : again → Keeps ground opened (first.writeWhole path content).2 last) :
    ((first.writeWhole path content).1 = .ok () ↔ (second.writeWhole path content).1 = .ok ()) ∧
      Tracks ground again base other last (first.writeWhole path content).2
        (second.writeWhole path content).2 := by
  have hsame := htracks.editOf_eq hstart hholds hfrees hkeeps
  obtain ⟨hfirst, hdone⟩ := writeWhole_spec htracks.wellFormed.1 path content
  obtain ⟨hsecond, hdone'⟩ := writeWhole_spec htracks.wellFormed.2 path content
  refine ⟨by rw [hdone, hdone', hsame], ⟨hfirst.wellFormed, hsecond.wellFormed⟩,
    ⟨hfirst.here.trans htracks.here.1, hsecond.here.trans htracks.here.2⟩, ?_, ?_⟩
  · intro place hown
    rw [hfirst.node?, hsecond.node?, ← hsame, Edit.apply, Edit.apply]
    split_ifs
    · exact .inl rfl
    · exact .inl rfl
    · exact .inl rfl
    · exact htracks.own place hown
  · intro place hown
    have hwritten : (first.editOf path content).written ≠ some place := by
      intro h
      rw [(written_editOf h).1, htracks.here.1] at hown
      exact hown hholds.target
    have hcleared : (first.editOf path content).cleared ≠ some place := by
      intro h
      rw [(cleared_editOf h).1, htracks.here.1] at hown
      exact hown hholds.beside
    rw [hfirst.node?, hsecond.node?, ← hsame, Edit.apply, Edit.apply, if_neg hwritten,
      if_neg hwritten, if_neg hcleared, if_neg hcleared, made_editOf]
    split_ifs with hmade
    · obtain ⟨hway, hclear⟩ := mem_way_of_mem_openWay hmade
      rw [htracks.here.1] at hway
      have hground := (hholds.way place hway).resolve_left hown
      rcases htracks.directory_or_none hstart hground hown hclear with ⟨hbase, hother⟩ | hnone
      · exact .inl ⟨hbase.symm, hother.symm⟩
      · exact .inr ⟨hground, hnone, rfl, rfl⟩
    · exact htracks.outside place hown

end Tracks

/-! ### Writing several files -/

/-- Writes files one after the other, up to the first one that cannot be written. -/
def writeAll (tree : FileTree) : List (Path × String) → Except FileFault Unit × FileTree
  | [] => (.ok (), tree)
  | (path, content) :: rest =>
    match tree.writeWhole path content with
    | (.ok _, written) => writeAll written rest
    | (.error fault, left) => (.error fault, left)

theorem writeAll_cons (tree : FileTree) (path : Path) (content : String)
    (rest : List (Path × String)) :
    tree.writeAll ((path, content) :: rest) =
      if (tree.writeWhole path content).1 = .ok () then
        (tree.writeWhole path content).2.writeAll rest
      else
        tree.writeWhole path content := by
  rw [writeAll]
  rcases tree.writeWhole path content with ⟨_ | _, _⟩ <;> simp

theorem writeAll_append (tree : FileTree) (first second : List (Path × String)) :
    tree.writeAll (first ++ second) =
      if (tree.writeAll first).1 = .ok () then
        (tree.writeAll first).2.writeAll second
      else
        tree.writeAll first := by
  induction first generalizing tree with
  | nil => simp [writeAll]
  | cons write rest ih =>
      rw [List.cons_append, writeAll_cons, writeAll_cons]
      split_ifs with hdone
      · rw [ih, if_pos ‹_›]
      · rw [ih, if_neg ‹_›]
      · rfl

variable {writes : List (Path × String)} {ground : Ground}

theorem wellFormed_writeAll (htree : tree.WellFormed) :
    (tree.writeAll writes).2.WellFormed ∧ (tree.writeAll writes).2.here = tree.here := by
  induction writes generalizing tree with
  | nil => exact ⟨htree, rfl⟩
  | cons write rest ih =>
      obtain ⟨hedited, -⟩ := writeWhole_spec htree write.1 write.2
      rw [writeAll_cons]
      split_ifs
      · obtain ⟨hlast, hhere⟩ := ih hedited.wellFormed
        exact ⟨hlast, hhere.trans hedited.here⟩
      · exact ⟨hedited.wellFormed, hedited.here⟩

theorem writeAll_ne_notUtf8 : (tree.writeAll writes).1 ≠ .error .notUtf8 := by
  induction writes generalizing tree with
  | nil => simp [writeAll]
  | cons write rest ih =>
      rw [writeAll_cons]
      split_ifs
      · exact ih
      · exact writeWhole_ne_notUtf8 _

theorem directory_writeAll (htree : tree.WellFormed) (hplace : tree.node? place = some .directory) :
    (tree.writeAll writes).2.node? place = some .directory := by
  induction writes generalizing tree with
  | nil => exact hplace
  | cons write rest ih =>
      have hnext : (tree.writeWhole write.1 write.2).2.node? place = some .directory :=
        directory_writeWhole htree hplace
      rw [writeAll_cons]
      split_ifs
      · exact ih (writeWhole_spec htree write.1 write.2).1.wellFormed hnext
      · exact hnext

/-- Once all files are written there are directories on the way to each. -/
theorem directory_of_writeAll (htree : tree.WellFormed) (hdone : (tree.writeAll writes).1 = .ok ())
    (hpath : path ∈ writes.map Prod.fst) (hplace : place ∈ path.parent.way tree.here) :
    (tree.writeAll writes).2.node? place = some .directory := by
  induction writes generalizing tree with
  | nil => simp at hpath
  | cons write rest ih =>
      obtain ⟨hedited, -⟩ := writeWhole_spec htree write.1 write.2
      rw [writeAll_cons] at hdone ⊢
      have hok : (tree.writeWhole write.1 write.2).1 = .ok () := by
        by_contra hfailed
        rw [if_neg hfailed] at hdone
        exact hfailed hdone
      rw [if_pos hok] at hdone ⊢
      rw [List.map_cons, List.mem_cons] at hpath
      rcases hpath with rfl | hpath
      · exact directory_writeAll hedited.wellFormed (directory_of_writeWhole htree hok hplace)
      · exact ih hedited.wellFormed hdone hpath (hedited.here ▸ hplace)

/-- Writing files keeps the rest, and new files appear only where they are written. -/
theorem keeps_writeAll (htree : tree.WellFormed) (hhere : tree.here = ground.here)
    (hwrites : ∀ write ∈ writes, ground.Frees write.1) :
    Keeps ground (fun place => ∃ write ∈ writes, place = write.1.place ground.here) tree
      (tree.writeAll writes).2 := by
  induction writes generalizing tree with
  | nil => exact .refl _
  | cons write rest ih =>
      obtain ⟨hedited, -⟩ := writeWhole_spec htree write.1 write.2
      have hone : Keeps ground (fun place => ∃ other ∈ write :: rest,
          place = other.1.place ground.here) tree (tree.writeWhole write.1 write.2).2 :=
        (keeps_writeWhole htree hhere (hwrites _ List.mem_cons_self)).mono
          fun _ h => ⟨_, List.mem_cons_self, h⟩
      rw [writeAll_cons]
      split_ifs
      · refine hone.trans ((ih hedited.wellFormed (hedited.here.trans hhere) fun other hother =>
          hwrites _ (List.mem_cons_of_mem _ hother)).mono ?_)
        rintro place ⟨other, hother, hplace⟩
        exact ⟨other, List.mem_cons_of_mem _ hother, hplace⟩
      · exact hone

/-- Writing the same files takes both runs on. -/
theorem Tracks.writeAll {again : Prop} {base other last first second : FileTree}
    {opened : Place → Prop} (htracks : Tracks ground again base other last first second)
    (hstart : StartsAlike ground base other) (hholds : ∀ write ∈ writes, ground.Holds write.1)
    (hfrees : again → ∀ write ∈ writes, ground.Frees write.1)
    (hkeeps : again → Keeps ground opened (first.writeAll writes).2 last) :
    ((first.writeAll writes).1 = .ok () ↔ (second.writeAll writes).1 = .ok ()) ∧
      Tracks ground again base other last (first.writeAll writes).2 (second.writeAll writes).2 := by
  induction writes generalizing first second with
  | nil => exact ⟨by simp [FileTree.writeAll], htracks⟩
  | cons write rest ih =>
      have hhead := hholds _ List.mem_cons_self
      obtain ⟨hedited, -⟩ := writeWhole_spec htracks.wellFormed.1 write.1 write.2
      -- What the first run keeps after this write includes what it keeps after the later ones.
      have hkeepsHead : again →
          Keeps ground (fun _ => True) (first.writeWhole write.1 write.2).2 last := by
        intro hagain
        have hlater : Keeps ground (fun _ => True) (first.writeAll (write :: rest)).2 last :=
          (hkeeps hagain).mono fun _ _ => trivial
        rw [writeAll_cons] at hlater
        split_ifs at hlater
        · refine Keeps.trans (.mono (keeps_writeAll hedited.wellFormed
            (hedited.here.trans htracks.here.1) fun other hother =>
              hfrees hagain _ (List.mem_cons_of_mem _ hother)) fun _ _ => trivial) hlater
        · exact hlater
      obtain ⟨hdone, hnext⟩ := htracks.writeWhole hstart hhead
        (fun hagain => hfrees hagain _ List.mem_cons_self) hkeepsHead
      rw [writeAll_cons, writeAll_cons]
      by_cases hok : (first.writeWhole write.1 write.2).1 = .ok ()
      · rw [if_pos hok, if_pos (hdone.1 hok)]
        refine ih hnext (fun other hother => hholds _ (List.mem_cons_of_mem _ hother))
          (fun hagain other hother => hfrees hagain _ (List.mem_cons_of_mem _ hother)) ?_
        rwa [writeAll_cons, if_pos hok] at hkeeps
      · rw [if_neg hok, if_neg (mt hdone.2 hok)]
        exact ⟨hdone, hnext⟩

end FileTree

end DesignTokens
