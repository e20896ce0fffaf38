import Mathlib.Data.List.Induction
import DesignTokens.Files.Tree
import DesignTokens.Proofs.Entries

/-!
# Places in a file tree

Names lead from one place to the next, a double dot one place up. Where they lead to does
not depend on the files; only whether one can go there does. A well-formed tree has a
directory above everything that lies in it, so a place can be reached along the names as
soon as something lies there.
-/

namespace DesignTokens

/-- A place in a file tree: the names that lead there from the root. -/
abbrev Place := List String

namespace Place

-- Named once, so that no definition that decides membership carries a copy of the proof.
scoped instance : LawfulBEq Place := inferInstanceAs (LawfulBEq (List String))

/-- The place to which one name leads. -/
def next (place : Place) (name : String) : Place :=
  if name = ".." then place.dropLast else place ++ [name]

/-- The place to which names lead. -/
def goal (place : Place) (names : List String) : Place :=
  names.foldl next place

/-- The places to which names lead one after the other. -/
def way (place : Place) : List String → List Place
  | [] => []
  | name :: rest => place.next name :: way (place.next name) rest

@[simp]
theorem next_up (place : Place) : place.next ".." = place.dropLast := if_pos rfl

theorem next_of_ne (place : Place) {name : String} (hname : name ≠ "..") :
    place.next name = place ++ [name] :=
  if_neg hname

@[simp]
theorem goal_nil (place : Place) : place.goal [] = place := rfl

@[simp]
theorem goal_cons (place : Place) (name : String) (rest : List String) :
    place.goal (name :: rest) = (place.next name).goal rest := rfl

theorem goal_append (place : Place) (first second : List String) :
    place.goal (first ++ second) = (place.goal first).goal second := by
  simp [goal]

theorem way_append (place : Place) (first second : List String) :
    place.way (first ++ second) = place.way first ++ (place.goal first).way second := by
  induction first generalizing place with
  | nil => rfl
  | cons name rest ih => simp [way, ih]

/-- The last place on the way is where the names lead to. -/
theorem goal_mem_way (place : Place) {names : List String} (hnames : names ≠ []) :
    place.goal names ∈ place.way names := by
  induction names generalizing place with
  | nil => exact absurd rfl hnames
  | cons name rest ih =>
      cases rest with
      | nil => simp [way]
      | cons second rest => exact List.mem_cons_of_mem _ (ih _ (List.cons_ne_nil _ _))

/-- The places on the way are those to which the first names lead. -/
theorem exists_of_mem_way {place other : Place} {names : List String}
    (hother : other ∈ place.way names) :
    ∃ before after, names = before ++ after ∧ other = place.goal before := by
  induction names generalizing place with
  | nil => exact absurd hother List.not_mem_nil
  | cons name rest ih =>
      rcases List.mem_cons.1 hother with rfl | hother
      · exact ⟨[name], rest, rfl, rfl⟩
      · obtain ⟨before, after, rfl, rfl⟩ := ih hother
        exact ⟨name :: before, after, rfl, rfl⟩

/-- Without double dots the names are added to the place. -/
theorem goal_eq_append {names : List String} (hnames : ".." ∉ names) (place : Place) :
    place.goal names = place ++ names := by
  induction names generalizing place with
  | nil => simp
  | cons name rest ih =>
      obtain ⟨hname, hrest⟩ := not_or.1 (mt List.mem_cons.2 hnames)
      rw [goal_cons, next_of_ne _ (Ne.symm hname), ih hrest, List.append_assoc,
        List.singleton_append]

end Place

namespace Path

/-- Where a path starts if the work is done at `here`. -/
def start (path : Path) (here : Place) : Place :=
  if path.isAbsolute then [] else here

/-- The place that a path names. -/
def place (path : Path) (here : Place) : Place :=
  (path.start here).goal path.names

/-- The places to which the names of a path lead one after the other. -/
def way (path : Path) (here : Place) : List Place :=
  (path.start here).way path.names

end Path

namespace FileTree

variable {tree : FileTree} {names below : List String} {place : Place} {name : String}

/-- Every place has one entry at most, the root none. Whatever is there lies in a directory,
and the work is done in one. -/
structure WellFormed (tree : FileTree) : Prop where
  nodup : (Entries.keys tree.entries).Nodup
  root : [] ∉ Entries.keys tree.entries
  straight : ∀ place node, tree.node? place = some node → ".." ∉ place
  above : ∀ place name node, tree.node? (place ++ [name]) = some node →
    tree.node? place = some .directory
  here : tree.node? tree.here = some .directory

/-- A file stands at the place. -/
def HasFile (tree : FileTree) (place : Place) : Prop :=
  ∃ node, tree.node? place = some node ∧ node ≠ .directory

instance (tree : FileTree) (place : Place) : Decidable (tree.HasFile place) :=
  match hnode : tree.node? place with
  | none => isFalse (by simp [HasFile, hnode])
  | some node => decidable_of_iff (node ≠ .directory) (by simp [HasFile, hnode])

/-- The two trees have the same at every place. -/
def Same (first second : FileTree) : Prop :=
  first.here = second.here ∧ ∀ place, first.node? place = second.node? place

@[simp]
theorem node?_root : tree.node? [] = some .directory := rfl

theorem hasFile_congr {first second : FileTree} (hsame : first.node? place = second.node? place) :
    first.HasFile place ↔ second.HasFile place := by
  rw [HasFile, HasFile, hsame]

theorem not_hasFile_of_directory (hplace : tree.node? place = some .directory) :
    ¬ tree.HasFile place := by
  rintro ⟨node, hnode, hne⟩
  rw [hplace] at hnode
  exact hne (Option.some.inj hnode).symm

/-- A place without a file is free or a directory. -/
theorem none_or_directory (hclear : ¬ tree.HasFile place) :
    tree.node? place = none ∨ tree.node? place = some .directory := by
  cases hnode : tree.node? place with
  | none => exact .inl rfl
  | some node =>
      by_cases hdirectory : node = .directory
      · exact .inr (congrArg some hdirectory)
      · exact absurd ⟨node, hnode, hdirectory⟩ hclear

theorem node?_of_ne_nil (tree : FileTree) (hplace : place ≠ []) :
    tree.node? place = Entries.get? tree.entries place :=
  if_neg (by simpa using hplace)

theorem node?_append_singleton (tree : FileTree) (place : Place) (name : String) :
    tree.node? (place ++ [name]) = Entries.get? tree.entries (place ++ [name]) :=
  tree.node?_of_ne_nil (by simp)

theorem node?_put (tree : FileTree) (hplace : place ≠ []) (node : FileNode) (other : Place) :
    (tree.put place node).node? other = if other = place then some node else tree.node? other := by
  by_cases hroot : other = []
  · rw [hroot, if_neg (Ne.symm hplace)]
    rfl
  · rw [node?_of_ne_nil _ hroot, node?_of_ne_nil _ hroot, put, Entries.get?_insert]
    by_cases heq : place = other
    · simp [heq]
    · simp [heq, Ne.symm heq]

theorem node?_removeAt (tree : FileTree) (hplace : place ≠ []) (other : Place) :
    (tree.removeAt place).node? other = if place <+: other then none else tree.node? other := by
  by_cases hroot : other = []
  · rw [hroot, if_neg (by simpa using hplace)]
    rfl
  · rw [node?_of_ne_nil _ hroot, node?_of_ne_nil _ hroot, removeAt,
      Entries.get?_filter fun key => !place.isPrefixOf key]
    by_cases hbelow : place <+: other
    · simp [hbelow, List.isPrefixOf_iff_prefix.2 hbelow]
    · have hprefix : place.isPrefixOf other = false :=
        Bool.eq_false_iff.2 (mt List.isPrefixOf_iff_prefix.1 hbelow)
      simp [hbelow, hprefix]

/-- The entries of a tree say whether it is well-formed. -/
theorem wellFormed_of_entries (hnodup : (Entries.keys tree.entries).Nodup)
    (hentries : ∀ entry ∈ tree.entries, entry.1 ≠ [] ∧ ".." ∉ entry.1 ∧
      tree.node? entry.1.dropLast = some .directory)
    (hhere : tree.node? tree.here = some .directory) : tree.WellFormed where
  nodup := hnodup
  root hroot := by
    obtain ⟨entry, hentry, heq⟩ := List.mem_map.1 hroot
    exact (hentries entry hentry).1 heq
  straight place node hnode := by
    by_cases hplace : place = []
    · simp [hplace]
    · rw [node?_of_ne_nil _ hplace] at hnode
      exact (hentries _ (Entries.mem_of_get?_eq_some hnode)).2.1
  above place name node hnode := by
    rw [node?_append_singleton] at hnode
    simpa using (hentries _ (Entries.mem_of_get?_eq_some hnode)).2.2
  here := hhere

namespace WellFormed

theorem mem_entries_iff (htree : tree.WellFormed) {node : FileNode} :
    (place, node) ∈ tree.entries ↔ place ≠ [] ∧ tree.node? place = some node := by
  constructor
  · intro hmem
    have hplace : place ≠ [] := fun h => htree.root (h ▸ List.mem_map_of_mem hmem)
    rw [node?_of_ne_nil _ hplace]
    exact ⟨hplace, Entries.get?_eq_some_of_mem htree.nodup hmem⟩
  · rintro ⟨hplace, hnode⟩
    rw [node?_of_ne_nil _ hplace] at hnode
    exact Entries.mem_of_get?_eq_some hnode

/-- Above everything there is a directory. -/
theorem above_append (htree : tree.WellFormed) {node : FileNode} (hbelow : below ≠ [])
    (hnode : tree.node? (place ++ below) = some node) : tree.node? place = some .directory := by
  induction below using List.reverseRecOn generalizing node with
  | nil => exact absurd rfl hbelow
  | append_singleton below last ih =>
      rw [← List.append_assoc] at hnode
      have hparent := htree.above _ _ _ hnode
      by_cases hempty : below = []
      · simpa [hempty] using hparent
      · exact ih hempty hparent

theorem node?_dropLast (htree : tree.WellFormed) {node : FileNode}
    (hnode : tree.node? place = some node) : tree.node? place.dropLast = some .directory := by
  induction place using List.reverseRecOn with
  | nil => rfl
  | append_singleton place last => simpa using htree.above _ _ _ hnode

theorem put (htree : tree.WellFormed) (hplace : tree.node? place = some .directory)
    (hname : name ≠ "..") {node : FileNode}
    (hkind : tree.node? (place ++ [name]) = some .directory → node = .directory) :
    (tree.put (place ++ [name]) node).WellFormed := by
  have hne : place ++ [name] ≠ [] := by simp
  have hput := node?_put tree hne node
  constructor
  · exact Entries.nodup_keys_insert htree.nodup _ _
  · intro hroot
    rcases (Entries.mem_keys_insert _ _ _ _).1 hroot with h | h
    · exact hne h.symm
    · exact htree.root h
  · intro other found hfound
    rw [hput] at hfound
    split at hfound
    · have hstraight := htree.straight _ _ hplace
      simp_all [Ne.symm hname]
    · exact htree.straight _ _ hfound
  · intro other last found hfound
    rw [hput] at hfound
    have hother : tree.node? other = some .directory := by
      split at hfound
      · next heq => rwa [(List.append_inj' heq rfl).1]
      · exact htree.above _ _ _ hfound
    rw [hput]
    split
    · next heq => rw [hkind (heq ▸ hother)]
    · exact hother
  · rw [hput]
    split
    · next heq => rw [hkind (by rw [← heq]; exact htree.here)]
    · exact htree.here

/-- A file can be taken away. -/
theorem removeAt (htree : tree.WellFormed) (hplace : place ≠ [])
    (hkind : tree.node? place ≠ some .directory) : (tree.removeAt place).WellFormed := by
  have hremove := node?_removeAt tree hplace
  constructor
  · exact htree.nodup.sublist (List.filter_sublist.map _)
  · exact fun hroot => htree.root ((List.filter_sublist.map _).subset hroot)
  · intro other found hfound
    rw [hremove] at hfound
    split at hfound
    · simp at hfound
    · exact htree.straight _ _ hfound
  · intro other last found hfound
    rw [hremove] at hfound ⊢
    split at hfound
    · simp at hfound
    · next hout =>
        rw [if_neg fun h => hout (h.trans (List.prefix_append _ _))]
        exact htree.above _ _ _ hfound
  · rw [hremove, if_neg]
    · exact htree.here
    · rintro ⟨below, heq : place ++ below = tree.here⟩
      have hhere := htree.here
      rw [← heq] at hhere
      by_cases hbelow : below = []
      · exact hkind (by simpa [hbelow] using hhere)
      · exact hkind (htree.above_append hbelow hhere)

/-- Nothing lies below a place that is no directory. -/
theorem node?_below (htree : tree.WellFormed) (hkind : tree.node? place ≠ some .directory)
    {other : Place} (hbelow : place <+: other) (hne : other ≠ place) :
    tree.node? other = none := by
  obtain ⟨more, rfl⟩ := hbelow
  by_contra hnode
  obtain ⟨node, hnode⟩ := Option.ne_none_iff_exists'.1 hnode
  exact hkind (htree.above_append (by simpa using hne) hnode)

end WellFormed

/-! ### Going along names -/

theorem goal_eq_of_locateFrom {found : Place} (hfound : tree.locateFrom place names = .ok found) :
    found = place.goal names := by
  induction names generalizing place with
  | nil => exact (Except.ok.inj hfound).symm
  | cons name rest ih =>
      rw [locateFrom] at hfound
      split at hfound
      · exact ih hfound
      · simp at hfound
      · simp at hfound

theorem locateFrom_cons (hplace : tree.node? place = some .directory) (rest : List String) :
    tree.locateFrom place (name :: rest) = tree.locateFrom (place.next name) rest := by
  rw [locateFrom, hplace]
  rfl

theorem directory_of_locateFrom_cons {rest : List String} {found : Place}
    (hfound : tree.locateFrom place (name :: rest) = .ok found) :
    tree.node? place = some .directory := by
  rw [locateFrom] at hfound
  split at hfound
  · assumption
  · simp at hfound
  · simp at hfound

theorem locateFrom_append (first second : List String) :
    tree.locateFrom place (first ++ second) =
      (tree.locateFrom place first >>= fun found => tree.locateFrom found second) := by
  induction first generalizing place with
  | nil => rfl
  | cons name rest ih =>
      rw [List.cons_append, locateFrom, locateFrom]
      split
      · exact ih
      · rfl
      · rfl

/-- Names whose way is all directories lead to their goal. -/
theorem locateFrom_eq_goal (hplace : tree.node? place = some .directory)
    (hway : ∀ other ∈ place.way names, tree.node? other = some .directory) :
    tree.locateFrom place names = .ok (place.goal names) := by
  induction names generalizing place with
  | nil => rfl
  | cons name rest ih =>
      rw [locateFrom_cons hplace]
      exact ih (hway _ List.mem_cons_self) fun other hother => hway _ (List.mem_cons_of_mem _ hother)

theorem node?_goal (hplace : tree.node? place = some .directory)
    (hway : ∀ other ∈ place.way names, tree.node? other = some .directory) :
    tree.node? (place.goal names) = some .directory := by
  by_cases hnames : names = []
  · rwa [hnames]
  · exact hway _ (place.goal_mem_way hnames)

/-- From there one gets one name further. -/
theorem locateFrom_append_singleton (hplace : tree.node? place = some .directory)
    (hway : ∀ other ∈ place.way names, tree.node? other = some .directory) (last : String) :
    tree.locateFrom place (names ++ [last]) = .ok ((place.goal names).next last) := by
  rw [locateFrom_append, locateFrom_eq_goal hplace hway]
  exact locateFrom_cons (node?_goal hplace hway) []

/-- Something lies at the start of names that lead to something. -/
theorem exists_node_of_locateFrom {found : Place} {node : FileNode}
    (hfound : tree.locateFrom place names = .ok found) (hnode : tree.node? found = some node) :
    ∃ first, tree.node? place = some first := by
  cases names with
  | nil =>
      obtain rfl := Except.ok.inj hfound
      exact ⟨node, hnode⟩
  | cons name rest => exact ⟨_, directory_of_locateFrom_cons hfound⟩

/-- Where something lies, one gets by the names below any place above it. -/
theorem WellFormed.locateFrom_append_eq (htree : tree.WellFormed) {node : FileNode}
    (hnode : tree.node? (place ++ names) = some node) :
    tree.locateFrom place names = .ok (place ++ names) := by
  induction names generalizing place with
  | nil => simp [locateFrom]
  | cons name rest ih =>
      have hplace := htree.above_append (List.cons_ne_nil _ _) hnode
      have hname : name ≠ ".." := by
        intro h
        exact htree.straight _ _ hnode (by simp [h])
      rw [locateFrom_cons hplace, Place.next_of_ne _ hname, ih (by simpa using hnode)]
      simp

theorem startOf_eq (tree : FileTree) (path : Path) : tree.startOf path = path.start tree.here := rfl

theorem place_of_locate {path : Path} {found : Place} (hfound : tree.locate path = .ok found) :
    found = path.place tree.here :=
  goal_eq_of_locateFrom hfound

theorem WellFormed.node?_start (htree : tree.WellFormed) (path : Path) :
    tree.node? (path.start tree.here) = some .directory := by
  rw [Path.start]
  split
  · rfl
  · exact htree.here

end FileTree

end DesignTokens
