import DesignTokens.Proofs.Files.Places

/-!
# What a write changes

A file is written in steps: directories are created, a file beside the target is written,
and then it takes the target's place. Each step can fail, and what the earlier ones did
remains. All in all a write makes one edit to the tree: some places become directories, one
is cleared and one becomes the file. Which edit it is depends only on what kind of thing
stands at these places, not on texts.
-/

namespace DesignTokens

namespace Path

/-- The path ends in a name by which a file can be created. -/
def NamesFile (path : Path) : Prop :=
  path.names ≠ [] ∧ path.name ≠ ".."

/-- The place of the file that is written beside the target. -/
def temporaryPlace (path : Path) (here : Place) : Place :=
  (path.withEnding FileTree.temporaryEnding).place here

variable {path : Path}

theorem names_eq (hnames : path.names ≠ []) : path.names = path.parent.names ++ [path.name] := by
  rw [parent, name, List.getLast?_eq_some_getLast hnames, Option.getD_some,
    List.dropLast_append_getLast]

theorem NamesFile.place_eq (hpath : path.NamesFile) (here : Place) :
    path.place here = path.parent.place here ++ [path.name] := by
  rw [place, names_eq hpath.1, Place.goal_append, Place.goal_cons, Place.goal_nil,
    Place.next_of_ne _ hpath.2]
  rfl

theorem name_temporary_ne (path : Path) : path.name ++ FileTree.temporaryEnding ≠ ".." := by
  intro h
  have hlast := congrArg (fun text => text.toList.getLast?) h
  simp [FileTree.temporaryEnding] at hlast

theorem temporaryPlace_eq (path : Path) (here : Place) :
    path.temporaryPlace here =
      path.parent.place here ++ [path.name ++ FileTree.temporaryEnding] := by
  rw [temporaryPlace, withEnding, place, Place.goal_append, Place.goal_cons, Place.goal_nil,
    Place.next_of_ne _ path.name_temporary_ne]
  rfl

@[simp]
theorem parent_withEnding (path : Path) (ending : String) :
    (path.withEnding ending).parent = path.parent := by
  simp [parent, withEnding]

/-- A path that names no file ends where its parent does, or one place above. -/
theorem place_eq_of_not_namesFile (hpath : ¬ path.NamesFile) (here : Place) :
    path.place here = path.parent.place here ∨
      path.place here = (path.parent.place here).dropLast := by
  by_cases hnames : path.names = []
  · exact .inl (by simp [place, parent, start, isAbsolute, hnames])
  · have hname : path.name = ".." := by
      by_contra h
      exact hpath ⟨hnames, h⟩
    refine .inr ?_
    rw [place, names_eq hnames, Place.goal_append, Place.goal_cons, Place.goal_nil, hname,
      Place.next_up]
    rfl

theorem place_ne_temporaryPlace (path : Path) (here : Place) :
    path.place here ≠ path.temporaryPlace here := by
  rw [temporaryPlace_eq]
  intro h
  by_cases hpath : path.NamesFile
  · rw [hpath.place_eq] at h
    have hname := congrArg String.length (List.singleton_injective (List.append_cancel_left h))
    simp [FileTree.temporaryEnding] at hname
  · have hlength := congrArg List.length h
    rcases place_eq_of_not_namesFile hpath here with heq | heq
    · simp [heq] at hlength
    · simp only [heq, List.length_dropLast, List.length_append, List.length_singleton] at hlength
      omega

end Path

/-- A change of a file tree: places that become directories, one that is cleared and one
that becomes a file. -/
structure Edit where
  made : List Place
  cleared : Option Place := none
  written : Option Place := none
  content : String := ""

open scoped Place in
/-- What lies at a place after the change. -/
def Edit.apply (edit : Edit) (before : Place → Option FileNode) (place : Place) :
    Option FileNode :=
  if edit.written = some place then some (.text edit.content)
  else if edit.cleared = some place then none
  else if place ∈ edit.made then some .directory
  else before place

namespace FileTree

variable {tree after : FileTree} {names : List String} {place : Place} {path : Path}

/-- The places on a way before the first file. -/
def openWay (tree : FileTree) (place : Place) (names : List String) : List Place :=
  (place.way names).takeWhile fun other => !decide (tree.HasFile other)

/-- A directory stands at the place once some have been made. -/
def DirectoryWith (tree : FileTree) (made : List Place) (place : Place) : Prop :=
  place ∈ made ∨ tree.node? place = some .directory

instance (tree : FileTree) (made : List Place) (place : Place) :
    Decidable (tree.DirectoryWith made place) :=
  inferInstanceAs (Decidable (_ ∨ _))

/-- The change that writing a file makes. -/
def editOf (tree : FileTree) (path : Path) (content : String) : Edit :=
  let made := tree.openWay (path.parent.start tree.here) path.parent.names
  let temporary := path.temporaryPlace tree.here
  let target := path.place tree.here
  if made ≠ path.parent.way tree.here ∨ tree.DirectoryWith made temporary then
    { made }
  else if tree.DirectoryWith made target then
    { made, cleared := some temporary }
  else
    { made, cleared := some temporary, written := some target, content }

/-- A well-formed tree after a change. -/
structure Edited (tree : FileTree) (edit : Edit) (after : FileTree) : Prop where
  wellFormed : after.WellFormed
  here : after.here = tree.here
  node? : ∀ place, after.node? place = edit.apply tree.node? place

section MakeDirectories

variable {name : String} {rest : List String} {created : Bool}

theorem openWay_cons_of_hasFile (hfile : tree.HasFile (place.next name)) :
    tree.openWay place (name :: rest) = [] := by
  simp [openWay, Place.way, hfile]

theorem openWay_cons (hclear : ¬ tree.HasFile (place.next name)) :
    tree.openWay place (name :: rest) = place.next name :: tree.openWay (place.next name) rest := by
  simp [openWay, Place.way, hclear]

/-- How far a way is open depends on where the files are. -/
theorem openWay_congr (hfiles : ∀ other, after.HasFile other ↔ tree.HasFile other) :
    after.openWay place names = tree.openWay place names := by
  simp only [openWay, hfiles]

/-- A directory that is there before the others are made counts among those that are made. -/
theorem Edited.cons_made {next : FileTree} {made : List Place}
    (hnext : ∀ other, next.node? other =
      if other = place then some .directory else tree.node? other)
    (hhere : next.here = tree.here) (hedited : next.Edited { made } after) :
    tree.Edited { made := place :: made } after := by
  refine ⟨hedited.wellFormed, hedited.here.trans hhere, fun other => ?_⟩
  rw [hedited.node?]
  by_cases hother : other = place <;> simp [Edit.apply, hnext, hother]

theorem makeFrom_cons_of_directory (hnext : tree.node? (place.next name) = some .directory) :
    tree.makeFrom created place (name :: rest) =
      tree.makeFrom created (place.next name) rest := by
  rw [makeFrom]
  by_cases hname : name = ".."
  · rw [if_pos hname, hname, Place.next_up]
  · rw [Place.next_of_ne _ hname] at hnext ⊢
    simp only [if_neg hname, hnext]

theorem makeFrom_cons_of_hasFile (hname : name ≠ "..") (hfile : tree.HasFile (place.next name)) :
    tree.makeFrom created place (name :: rest) =
      (.error (if rest.isEmpty || created then .exists else .notDirectory), tree) := by
  obtain ⟨node, hnode, hkind⟩ := hfile
  rw [Place.next_of_ne _ hname] at hnode
  simp only [makeFrom, if_neg hname, hnode]

theorem makeFrom_cons_of_none (hname : name ≠ "..") (hnone : tree.node? (place.next name) = none) :
    tree.makeFrom created place (name :: rest) =
      (tree.put (place.next name) .directory).makeFrom true (place.next name) rest := by
  rw [Place.next_of_ne _ hname] at hnone ⊢
  simp only [makeFrom, if_neg hname, hnone]

end MakeDirectories

/-- Creating directories makes those before the first file on the way; it succeeds if there
is none. -/
theorem makeFrom_spec (htree : tree.WellFormed) (hplace : tree.node? place = some .directory)
    (created : Bool) :
    tree.Edited { made := tree.openWay place names } (tree.makeFrom created place names).2 ∧
      ((tree.makeFrom created place names).1 = .ok () ↔
        tree.openWay place names = place.way names) := by
  induction names generalizing tree created place with
  | nil => exact ⟨⟨htree, rfl, fun _ => rfl⟩, by simp [makeFrom, openWay, Place.way]⟩
  | cons name rest ih =>
      by_cases hnext : tree.node? (place.next name) = some .directory
      · have hsame (other : Place) : tree.node? other =
            if other = place.next name then some .directory else tree.node? other := by
          split_ifs with hother
          · rw [hother, hnext]
          · rfl
        obtain ⟨hedited, hok⟩ := ih htree hnext created
        rw [makeFrom_cons_of_directory hnext, openWay_cons (not_hasFile_of_directory hnext)]
        exact ⟨hedited.cons_made hsame rfl, by simp [hok, Place.way]⟩
      have hname : name ≠ ".." := by
        rintro rfl
        exact hnext (htree.node?_dropLast hplace)
      by_cases hfile : tree.HasFile (place.next name)
      · rw [makeFrom_cons_of_hasFile hname hfile, openWay_cons_of_hasFile hfile]
        exact ⟨⟨htree, rfl, fun other => by simp [Edit.apply]⟩, by simp [Place.way]⟩
      · have hnone := (none_or_directory hfile).resolve_right hnext
        have hne : place.next name ≠ [] := by simp [Place.next_of_ne _ hname]
        have hput := node?_put tree hne .directory
        have hfiles (other : Place) : (tree.put (place.next name) .directory).HasFile other ↔
            tree.HasFile other := by
          by_cases hother : other = place.next name
          · simp [HasFile, hput, hother, hnone]
          · exact hasFile_congr (by rw [hput, if_neg hother])
        have hwellFormed : (tree.put (place.next name) .directory).WellFormed := by
          rw [Place.next_of_ne _ hname]
          exact htree.put hplace hname fun _ => rfl
        obtain ⟨hedited, hok⟩ := ih hwellFormed (by rw [hput, if_pos rfl]) true
        rw [openWay_congr hfiles] at hedited hok
        rw [makeFrom_cons_of_none hname hnone, openWay_cons hfile]
        exact ⟨hedited.cons_made hput rfl, by simp [hok, Place.way]⟩

section Steps

variable {made : FileTree} (hmade : made.WellFormed)
  (hway : ∀ other ∈ path.parent.way made.here, made.node? other = some .directory)

include hmade hway

theorem node?_parent : made.node? (path.parent.place made.here) = some .directory :=
  node?_goal (hmade.node?_start path.parent) hway

/-- A path can be followed if there are directories on the way to its parent. -/
theorem locate_of_way : made.locate path = .ok (path.place made.here) := by
  by_cases hnames : path.names = []
  · simp [locate, locateFrom, Path.place, startOf_eq, hnames]
  · have hstart : path.start made.here = path.parent.start made.here := rfl
    rw [locate, Path.place, startOf_eq, Path.names_eq hnames, hstart,
      locateFrom_append_singleton (hmade.node?_start path.parent) hway, Place.goal_append]
    rfl

theorem locate_temporary_of_way :
    made.locate (path.withEnding temporaryEnding) = .ok (path.temporaryPlace made.here) :=
  locate_of_way hmade (by rwa [Path.parent_withEnding])

/-- A path that ends where no directory is names a file. -/
theorem namesFile_of_ne_directory
    (hplace : made.node? (path.place made.here) ≠ some .directory) : path.NamesFile := by
  have hparent := node?_parent hmade hway
  by_contra hpath
  rcases Path.place_eq_of_not_namesFile hpath made.here with heq | heq
  · exact hplace (heq ▸ hparent)
  · exact hplace (heq ▸ hmade.node?_dropLast hparent)

/-- The file beside the target is written if no directory stands in its place. -/
theorem writeText_temporary (content : String) :
    made.writeText (path.withEnding temporaryEnding) content =
      if made.node? (path.temporaryPlace made.here) = some .directory then
        .error .isDirectory
      else
        .ok (made.put (path.temporaryPlace made.here) (.text content)) := by
  have hparent : made.node? (path.temporaryPlace made.here).dropLast = some .directory := by
    rw [Path.temporaryPlace_eq, List.dropLast_concat]
    exact node?_parent hmade hway
  simp only [writeText, writeNode, locate_temporary_of_way hmade hway, bind, Except.bind, hparent]
  rfl

/-- Once it is written it takes the place of the target if that is no directory. -/
theorem replace_temporary (hfree : made.node? (path.temporaryPlace made.here) ≠ some .directory)
    (node : FileNode) :
    let written := made.put (path.temporaryPlace made.here) node
    written.WellFormed ∧
      written.locate (path.withEnding temporaryEnding) = .ok (path.temporaryPlace made.here) ∧
      written.replace (path.withEnding temporaryEnding) path =
        if made.node? (path.place made.here) = some .directory then
          .error .isDirectory
        else
          .ok ((written.removeAt (path.temporaryPlace made.here)).put
            (path.place made.here) node) := by
  intro written
  have hput (other : Place) : written.node? other =
      if other = path.temporaryPlace made.here then some node else made.node? other :=
    node?_put made (by simp [Path.temporaryPlace_eq]) node other
  have hwritten : written.WellFormed := by
    rw [Path.temporaryPlace_eq] at hfree
    simp only [written, Path.temporaryPlace_eq]
    exact hmade.put (node?_parent hmade hway) path.name_temporary_ne fun h => absurd h hfree
  have hstill : ∀ other ∈ path.parent.way written.here, written.node? other = some .directory := by
    intro other hother
    have hother' : other ≠ path.temporaryPlace made.here := by
      rintro rfl
      exact hfree (hway _ hother)
    rw [hput, if_neg hother']
    exact hway other hother
  have hold := locate_temporary_of_way hwritten hstill
  have hnode : written.node? (path.temporaryPlace made.here) = some node := by
    rw [hput, if_pos rfl]
  have hkept : written.node? (path.place made.here) = made.node? (path.place made.here) := by
    rw [hput, if_neg (path.place_ne_temporaryPlace made.here)]
  have hhere : written.here = made.here := rfl
  refine ⟨hwritten, hold, ?_⟩
  simp only [replace, hold, locate_of_way hwritten hstill, bind, Except.bind]
  rw [hhere, hnode, hkept]
  rfl

end Steps

/-- A file that is put down and taken away again leaves nothing but its place clear. -/
theorem node?_removeAt_put (htree : tree.WellFormed) (hplace : place ≠ [])
    (hkind : tree.node? place ≠ some .directory) (node : FileNode) (other : Place) :
    ((tree.put place node).removeAt place).node? other =
      if place = other then none else tree.node? other := by
  rw [node?_removeAt _ hplace, node?_put _ hplace]
  by_cases heq : place = other
  · simp [heq]
  · by_cases hbelow : place <+: other
    · simp [heq, hbelow, htree.node?_below hkind hbelow (Ne.symm heq)]
    · simp [heq, hbelow, Ne.symm heq]

theorem makeAll_spec (htree : tree.WellFormed) (path : Path) :
    tree.Edited { made := tree.openWay (path.start tree.here) path.names }
        (tree.makeAll path).2 ∧
      ((tree.makeAll path).1 = .ok () ↔
        tree.openWay (path.start tree.here) path.names = path.way tree.here) :=
  makeFrom_spec htree (htree.node?_start path) false

theorem directoryWith_iff {dirs : List Place} (hedited : tree.Edited { made := dirs } after)
    (other : Place) :
    tree.DirectoryWith dirs other ↔ after.node? other = some .directory := by
  rw [hedited.node?, DirectoryWith]
  by_cases hmem : other ∈ dirs <;> simp [Edit.apply, hmem]

/-- The change that is left once the directories on the way are there. -/
def lastEdit (made : FileTree) (path : Path) (content : String) : Edit :=
  if made.node? (path.temporaryPlace made.here) = some .directory then
    { made := [] }
  else if made.node? (path.place made.here) = some .directory then
    { made := [], cleared := some (path.temporaryPlace made.here) }
  else
    { made := [], content, cleared := some (path.temporaryPlace made.here),
      written := some (path.place made.here) }

theorem made_lastEdit (made : FileTree) (path : Path) (content : String) :
    (made.lastEdit path content).made = [] := by
  rw [lastEdit]
  split
  · rfl
  · split <;> rfl

/-- From directories that were made the file goes into its place by way of the other one. -/
theorem writeWhole_of_makeAll {made : FileTree} (hmake : tree.makeAll path.parent = (.ok (), made))
    (hmade : made.WellFormed)
    (hway : ∀ other ∈ path.parent.way made.here, made.node? other = some .directory)
    (content : String) :
    made.Edited (made.lastEdit path content) (tree.writeWhole path content).2 ∧
      ((tree.writeWhole path content).1 = .ok () ↔
        (made.lastEdit path content).written.isSome) := by
  have hwrite := writeText_temporary hmade hway content
  rw [writeWhole, hmake, lastEdit]
  by_cases hblocked : made.node? (path.temporaryPlace made.here) = some .directory
  · rw [if_pos hblocked] at hwrite ⊢
    simp only [hwrite]
    exact ⟨⟨hmade, rfl, fun other => by simp [Edit.apply]⟩, by simp⟩
  obtain ⟨hwritten, hlocate, hreplace⟩ := replace_temporary hmade hway hblocked (.text content)
  have hne : path.temporaryPlace made.here ≠ [] := by simp [Path.temporaryPlace_eq]
  have hremoved := node?_removeAt_put hmade hne hblocked (.text content)
  have hcleared := hwritten.removeAt hne (by rw [node?_put _ hne, if_pos rfl]; simp)
  rw [if_neg hblocked] at hwrite ⊢
  simp only [hwrite, hreplace]
  by_cases hoccupied : made.node? (path.place made.here) = some .directory
  · simp only [if_pos hoccupied, hlocate]
    refine ⟨⟨hcleared, rfl, fun other => ?_⟩, by simp⟩
    rw [hremoved]
    simp [Edit.apply]
  · have hpath := namesFile_of_ne_directory hmade hway hoccupied
    have htarget := hpath.place_eq made.here
    simp only [if_neg hoccupied]
    refine ⟨⟨?_, rfl, fun other => ?_⟩, by simp⟩
    · rw [htarget] at hoccupied ⊢
      refine hcleared.put ?_ hpath.2 fun h => ?_
      · rw [hremoved, if_neg (by simp [Path.temporaryPlace_eq])]
        exact node?_parent hmade hway
      · rw [hremoved] at h
        split at h
        · simp at h
        · exact absurd h hoccupied
    · rw [node?_put _ (by simp [htarget]), hremoved]
      simp [Edit.apply, eq_comm]

/-- Writing a file makes its edit, and succeeds if the edit writes the file. -/
theorem writeWhole_spec (htree : tree.WellFormed) (path : Path) (content : String) :
    tree.Edited (tree.editOf path content) (tree.writeWhole path content).2 ∧
      ((tree.writeWhole path content).1 = .ok () ↔
        (tree.editOf path content).written.isSome) := by
  obtain ⟨hmade, hok⟩ := makeAll_spec htree path.parent
  rcases hmake : tree.makeAll path.parent with ⟨done, made⟩
  rw [hmake] at hmade hok
  cases done with
  | error fault =>
      have hclosed : tree.openWay (path.parent.start tree.here) path.parent.names ≠
          path.parent.way tree.here := fun h => nomatch hok.2 h
      have hedit : tree.editOf path content =
          { made := tree.openWay (path.parent.start tree.here) path.parent.names } :=
        if_pos (.inl hclosed)
      rw [writeWhole, hmake, hedit]
      exact ⟨hmade, by simp⟩
  | ok _ =>
      have hopen := hok.1 rfl
      have hhere : made.here = tree.here := hmade.here
      have hdirectory := directoryWith_iff hmade
      have hway : ∀ other ∈ path.parent.way made.here, made.node? other = some .directory := by
        intro other hother
        rw [hhere, ← hopen] at hother
        exact (hdirectory other).1 (.inl hother)
      have hedit : tree.editOf path content =
          { made.lastEdit path content with made := path.parent.way tree.here } := by
        simp only [editOf, lastEdit, hopen, hhere, ← hdirectory, ne_eq, not_true_eq_false, false_or]
        split
        · rfl
        · split <;> rfl
      obtain ⟨hlast, hdone⟩ := writeWhole_of_makeAll hmake hmade.wellFormed hway content
      rw [hedit]
      refine ⟨⟨hlast.wellFormed, hlast.here.trans hhere, fun other => ?_⟩, hdone⟩
      rw [hlast.node?]
      simp [Edit.apply, made_lastEdit, hmade.node?, hopen]

/-! ### How writing fails -/

theorem locateFrom_ne_notUtf8 : tree.locateFrom place names ≠ .error .notUtf8 := by
  induction names generalizing place with
  | nil => simp [locateFrom]
  | cons name rest ih =>
      rw [locateFrom]
      split
      · exact ih
      · simp
      · simp

theorem makeFrom_ne_notUtf8 (created : Bool) :
    (tree.makeFrom created place names).1 ≠ .error .notUtf8 := by
  induction names generalizing tree place created with
  | nil => simp [makeFrom]
  | cons name rest ih =>
      rw [makeFrom]
      split
      · exact ih created
      · simp only
        split
        · exact ih created
        · split <;> simp
        · exact ih true

theorem writeText_ne_notUtf8 (content : String) :
    tree.writeText path content ≠ .error .notUtf8 := by
  rw [writeText, writeNode]
  cases hlocate : tree.locate path with
  | error fault =>
      have hfault : fault ≠ .notUtf8 := fun h => locateFrom_ne_notUtf8 (h ▸ hlocate)
      simpa [bind, Except.bind] using hfault
  | ok found =>
      simp only [bind, Except.bind]
      split
      · split <;> simp [throw, throwThe, MonadExceptOf.throw, pure, Except.pure]
      · simp [throw, throwThe, MonadExceptOf.throw]
      · simp [throw, throwThe, MonadExceptOf.throw]

theorem replace_ne_notUtf8 (source target : Path) : tree.replace source target ≠ .error .notUtf8 := by
  rw [replace]
  cases hsource : tree.locate source with
  | error fault =>
      have hfault : fault ≠ .notUtf8 := fun h => locateFrom_ne_notUtf8 (h ▸ hsource)
      simpa [bind, Except.bind] using hfault
  | ok old =>
      cases htarget : tree.locate target with
      | error fault =>
          have hfault : fault ≠ .notUtf8 := fun h => locateFrom_ne_notUtf8 (h ▸ htarget)
          simpa [bind, Except.bind] using hfault
      | ok new =>
          simp only [bind, Except.bind]
          split
          · simp [throw, throwThe, MonadExceptOf.throw]
          · split <;> simp [throw, throwThe, MonadExceptOf.throw, pure, Except.pure]

/-- A file that is to be written is never reported as one that is no text. -/
theorem writeWhole_ne_notUtf8 (content : String) :
    (tree.writeWhole path content).1 ≠ .error .notUtf8 := by
  rw [writeWhole]
  rcases hmake : tree.makeAll path.parent with ⟨fault | _, made⟩
  · have hfault : (tree.makeAll path.parent).1 ≠ .error .notUtf8 := makeFrom_ne_notUtf8 false
    rwa [hmake] at hfault
  · simp only
    cases hwrite : made.writeText (path.withEnding temporaryEnding) content with
    | error fault =>
        have hfault : fault ≠ .notUtf8 := fun h => writeText_ne_notUtf8 content (h ▸ hwrite)
        simpa using hfault
    | ok written =>
        simp only
        cases hreplace : written.replace (path.withEnding temporaryEnding) path with
        | ok done => simp
        | error fault =>
            have hfault : fault ≠ .notUtf8 := fun h => replace_ne_notUtf8 _ _ (h ▸ hreplace)
            cases written.locate (path.withEnding temporaryEnding) <;> simpa using hfault

end FileTree

end DesignTokens
