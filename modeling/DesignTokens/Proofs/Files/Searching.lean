import Mathlib.Data.Prod.Lex
import Mathlib.Data.List.Lex
import Mathlib.Data.List.Sort
import DesignTokens.Files.Search
import DesignTokens.Proofs.Files.Places

/-!
# Where a pattern can lead

Each step of a pattern leads on by some names, whatever the files are. A file tree only
decides which of these names are there. Two trees that differ at some places find the same
files if the pattern cannot lead to a file there, nor go back up from there: below a place
where they differ nothing else is reached.
-/

namespace DesignTokens

namespace Step

/-- The names by which a step can lead on. -/
def Moves : Step → List String → Prop
  | .name text, below => below = if text = "." then [] else [text]
  | .wild hidden parts, below => ∃ name, below = [name] ∧ covers hidden parts name ∧ name ≠ ".."
  | .anyDepth, below => ∀ name ∈ below, ¬ isHidden name
  | .directory, below => below = []

theorem isHidden_up : isHidden ".." = true := by decide +kernel

/-- Only a double dot leads up. -/
theorem eq_up_of_moves {step : Step} {below : List String} (hmoves : step.Moves below)
    (hup : ".." ∈ below) : step = .name ".." ∧ below = [".."] := by
  cases step with
  | name text =>
      rw [Moves] at hmoves
      split at hmoves
      · simp [hmoves] at hup
      · rw [hmoves, List.mem_singleton] at hup
        rw [hmoves, ← hup]
        exact ⟨rfl, rfl⟩
  | wild hidden parts =>
      obtain ⟨name, rfl, -, hname⟩ := hmoves
      exact absurd (List.mem_singleton.1 hup).symm hname
  | anyDepth => exact absurd isHidden_up (hmoves _ hup)
  | directory =>
      rw [Moves] at hmoves
      simp [hmoves] at hup

end Step

namespace Pattern

/-- The names that the steps of a pattern can stand for. -/
def Spells (steps : List Step) (names : List String) : Prop :=
  ∃ parts, List.Forall₂ Step.Moves steps parts ∧ names = parts.flatten

theorem Spells.snoc {steps : List Step} {names below : List String} {step : Step}
    (hspells : Spells steps names) (hmoves : step.Moves below) :
    Spells (steps ++ [step]) (names ++ below) := by
  obtain ⟨parts, hparts, rfl⟩ := hspells
  exact ⟨parts ++ [below], List.rel_append hparts (.cons hmoves .nil), by simp⟩

/-- A pattern that begins with plain names spells them first. -/
theorem Spells.exists_eq_append {first names : List String} {steps : List Step}
    (hspells : Spells (first.map .name ++ steps) names) (hplain : "." ∉ first) :
    ∃ more, names = first ++ more ∧ Spells steps more := by
  induction first generalizing names with
  | nil => exact ⟨names, rfl, hspells⟩
  | cons name rest ih =>
      obtain ⟨hname, hrest⟩ := not_or.1 (mt List.mem_cons.2 hplain)
      obtain ⟨parts, hparts, rfl⟩ := hspells
      rw [List.map_cons, List.cons_append, List.forall₂_cons_left_iff] at hparts
      obtain ⟨below, others, hmoves, hothers, rfl⟩ := hparts
      rw [Step.Moves, if_neg (Ne.symm hname)] at hmoves
      obtain ⟨more, hmore, hspells⟩ := ih ⟨others, hothers, rfl⟩ hrest
      exact ⟨more, by rw [List.flatten_cons, hmoves, hmore]; rfl, hspells⟩

/-- A pattern of plain names spells these names only. -/
theorem Spells.eq_of_literal {first names : List String} (hspells : Spells (first.map .name) names)
    (hplain : "." ∉ first) : names = first := by
  rw [← List.append_nil (first.map Step.name)] at hspells
  obtain ⟨more, rfl, parts, hparts, rfl⟩ := hspells.exists_eq_append hplain
  rw [List.forall₂_nil_left_iff.1 hparts, List.flatten_nil, List.append_nil]

/-- Only a step up spells a double dot. -/
theorem Spells.up_not_mem {steps : List Step} {names : List String} (hspells : Spells steps names)
    (hsteps : .name ".." ∉ steps) : ".." ∉ names := by
  obtain ⟨parts, hparts, rfl⟩ := hspells
  induction hparts with
  | nil => simp
  | cons hmoves _ ih =>
      obtain ⟨hstep, hrest⟩ := not_or.1 (mt List.mem_cons.2 hsteps)
      rw [List.flatten_cons, List.mem_append, not_or]
      exact ⟨fun hup => hstep (Step.eq_up_of_moves hmoves hup).1.symm, ih hrest⟩

end Pattern

namespace Path

/-- The path with more names. -/
def extend (path : Path) (below : List String) : Path :=
  ⟨path.anchor, path.names ++ below⟩

@[simp]
theorem extend_nil (path : Path) : path.extend [] = path := by
  simp [extend]

theorem way_extend (path : Path) (below : List String) (here : Place) :
    (path.extend below).way here = path.way here ++ (path.place here).way below :=
  Place.way_append _ _ _

end Path

namespace FileTree

variable {tree first second : FileTree} {path next : Path} {step : Step} {place found : Place}
  {names below : List String} {node : FileNode}

theorem locate_extend (hlocate : tree.locate path = .ok found) (below : List String) :
    tree.locate (path.extend below) = tree.locateFrom found below := by
  change tree.locateFrom (tree.startOf path) (path.names ++ below) = _
  rw [locateFrom_append]
  change (tree.locate path >>= _) = _
  rw [hlocate]
  rfl

theorem at?_of_locate (hlocate : tree.locate path = .ok found) : tree.at? path = tree.node? found := by
  rw [at?, hlocate]

theorem isSome_at?_iff (tree : FileTree) (path : Path) : (tree.at? path).isSome ↔
    ∃ goal last, tree.locate path = .ok goal ∧ tree.node? goal = some last := by
  rw [at?]
  rcases tree.locate path with _ | goal
  · simp
  · simp [Option.isSome_iff_exists]

theorem isDirectory_iff (hlocate : tree.locate path = .ok found) :
    tree.isDirectory path ↔ tree.node? found = some .directory := by
  rw [isDirectory, at?_of_locate hlocate]
  rcases tree.node? found with _ | _ | _ | _ <;> simp

theorem isFile_iff (hlocate : tree.locate path = .ok found) :
    tree.isFile path ↔ tree.HasFile found := by
  rw [isFile, at?_of_locate hlocate, HasFile]
  rcases tree.node? found with _ | _ | _ | _ <;> simp

/-! ### One step -/

/-- Names without a double dot lead to something exactly if it lies below. -/
theorem exists_locateFrom_iff (htree : tree.WellFormed) (hstraight : ".." ∉ below) :
    (∃ goal last, tree.locateFrom place below = .ok goal ∧ tree.node? goal = some last) ↔
      ∃ last, tree.node? (place ++ below) = some last := by
  constructor
  · rintro ⟨goal, last, hgoal, hlast⟩
    rw [goal_eq_of_locateFrom hgoal, Place.goal_eq_append hstraight] at hlast
    exact ⟨last, hlast⟩
  · rintro ⟨last, hlast⟩
    exact ⟨_, last, htree.locateFrom_append_eq hlast, hlast⟩

theorem mem_namesIn (htree : tree.WellFormed) {name : String} :
    name ∈ tree.namesIn place ↔ ∃ node, tree.node? (place ++ [name]) = some node := by
  rw [namesIn, List.mem_filterMap]
  constructor
  · rintro ⟨⟨names, node⟩, hmem, hname⟩
    simp only [Option.ite_none_right_eq_some] at hname
    obtain ⟨hplace, hlast⟩ := hname
    have hne : names ≠ [] := by
      rintro rfl
      simp at hlast
    have heq : names = place ++ [name] := by
      rw [List.getLast?_eq_some_getLast hne] at hlast
      rw [← hplace, ← Option.some.inj hlast, List.dropLast_append_getLast]
    exact ⟨node, heq ▸ (htree.mem_entries_iff.1 hmem).2⟩
  · rintro ⟨node, hnode⟩
    exact ⟨(place ++ [name], node), htree.mem_entries_iff.2 ⟨by simp, hnode⟩, by simp⟩

theorem mem_visibleBelow (htree : tree.WellFormed) (hlocate : tree.locate path = .ok found) :
    below ∈ tree.visibleBelow path ↔ below ≠ [] ∧ (∀ name ∈ below, ¬ Step.isHidden name) ∧
      ∃ node, tree.node? (found ++ below) = some node := by
  rw [visibleBelow, hlocate]
  simp only [List.mem_filterMap, Option.ite_none_right_eq_some, Option.some.injEq]
  constructor
  · rintro ⟨⟨names, node⟩, hmem, ⟨hbelow, hne, hvisible⟩, rfl⟩
    obtain ⟨more, rfl⟩ := List.isPrefixOf_iff_prefix.1 hbelow
    simp only [List.drop_left] at hne hvisible ⊢
    exact ⟨hne, by simpa using hvisible, node, (htree.mem_entries_iff.1 hmem).2⟩
  · rintro ⟨hne, hvisible, node, hnode⟩
    have hplace : found ++ below ≠ [] := by simp [hne]
    exact ⟨(found ++ below, node), htree.mem_entries_iff.2 ⟨hplace, hnode⟩, by simpa [hne] using hvisible,
      by simp⟩

/-- The names lead from a place to something; if there are none, a directory must be there. -/
def Arrives (tree : FileTree) (place : Place) (below : List String) : Prop :=
  ∃ goal last, tree.locateFrom place below = .ok goal ∧ tree.node? goal = some last ∧
    (below = [] → last = .directory)

theorem arrives_nil_iff : tree.Arrives place [] ↔ tree.node? place = some .directory := by
  constructor
  · rintro ⟨goal, last, hgoal, hlast, hkind⟩
    obtain rfl := Except.ok.inj hgoal
    rw [hlast, hkind rfl]
  · exact fun hdirectory => ⟨place, _, rfl, hdirectory, fun _ => rfl⟩

theorem arrives_iff (htree : tree.WellFormed) (hne : below ≠ []) (hstraight : ".." ∉ below) :
    tree.Arrives place below ↔ ∃ last, tree.node? (place ++ below) = some last := by
  rw [← exists_locateFrom_iff htree hstraight]
  constructor
  · rintro ⟨goal, last, hgoal, hlast, -⟩
    exact ⟨goal, last, hgoal, hlast⟩
  · rintro ⟨goal, last, hgoal, hlast⟩
    exact ⟨goal, last, hgoal, hlast, fun h => absurd h hne⟩

/-- Names lead on from directories only, and no names from nothing else. -/
theorem isDirectory_of_arrives (hlocate : tree.locate path = .ok found)
    (harrives : tree.Arrives found below) : tree.isDirectory path := by
  rw [isDirectory_iff hlocate]
  cases below with
  | nil => exact arrives_nil_iff.1 harrives
  | cons name rest =>
      obtain ⟨goal, last, hgoal, -⟩ := harrives
      exact directory_of_locateFrom_cons hgoal

/-- A step that stays where it is. -/
theorem mem_stay_iff (hlocate : tree.locate path = .ok found) :
    next ∈ (if tree.isDirectory path then [path] else []) ↔
      next = path.extend [] ∧ tree.Arrives found [] := by
  rw [arrives_nil_iff, ← isDirectory_iff hlocate, Path.extend_nil]
  by_cases hdirectory : tree.isDirectory path <;> simp [hdirectory]

theorem mem_follow_name (hlocate : tree.locate path = .ok found) {text : String} :
    next ∈ tree.follow path (.name text) ↔ ∃ below, (Step.name text).Moves below ∧
      next = path.extend below ∧ tree.Arrives found below := by
  rw [follow]
  simp only [Step.Moves, exists_eq_left]
  split
  · exact mem_stay_iff hlocate
  · have hsome := tree.isSome_at?_iff (path.extend [text])
    rw [locate_extend hlocate] at hsome
    change next ∈ (if (tree.at? (path.extend [text])).isSome then [path.extend [text]] else []) ↔ _
    by_cases hthere : (tree.at? (path.extend [text])).isSome
    · simpa [hthere, Arrives] using fun _ => hsome.1 hthere
    · simpa [hthere, Arrives] using fun _ goal hgoal last hlast =>
        hthere (hsome.2 ⟨goal, last, hgoal, hlast⟩)

theorem mem_follow_wild (htree : tree.WellFormed) (hlocate : tree.locate path = .ok found)
    {hidden : Bool} {parts : List NamePart} :
    next ∈ tree.follow path (.wild hidden parts) ↔ ∃ below, (Step.wild hidden parts).Moves below ∧
      next = path.extend below ∧ tree.Arrives found below := by
  have harrives {name : String} (hname : name ≠ "..") : tree.Arrives found [name] ↔
      ∃ last, tree.node? (found ++ [name]) = some last :=
    arrives_iff htree (List.cons_ne_nil name []) (by simpa using hname.symm)
  rw [follow, childNames, hlocate]
  simp only [List.mem_map, List.mem_filter, mem_namesIn htree, Step.Moves]
  constructor
  · rintro ⟨name, ⟨⟨last, hlast⟩, hcovers⟩, rfl⟩
    have hname : name ≠ ".." := by
      rintro rfl
      exact htree.straight _ _ hlast (by simp)
    exact ⟨[name], ⟨name, rfl, hcovers, hname⟩, rfl, (harrives hname).2 ⟨last, hlast⟩⟩
  · rintro ⟨_, ⟨name, rfl, hcovers, hname⟩, rfl, hthere⟩
    exact ⟨name, ⟨(harrives hname).1 hthere, hcovers⟩, rfl⟩

theorem mem_follow_anyDepth (htree : tree.WellFormed) (hlocate : tree.locate path = .ok found) :
    next ∈ tree.follow path .anyDepth ↔ ∃ below, Step.anyDepth.Moves below ∧
      next = path.extend below ∧ tree.Arrives found below := by
  have hvisible_straight {below : List String} (hvisible : Step.anyDepth.Moves below) :
      ".." ∉ below := fun h => hvisible _ h Step.isHidden_up
  rw [follow]
  constructor
  · intro hnext
    split at hnext
    · next hdirectory =>
        rcases List.mem_cons.1 hnext with rfl | hmem
        · exact ⟨[], List.forall_mem_nil _, (mem_stay_iff hlocate).1 (by simp [hdirectory])⟩
        · obtain ⟨below, hbelow, rfl⟩ := List.mem_map.1 hmem
          obtain ⟨hne, hvisible, hthere⟩ := (mem_visibleBelow htree hlocate).1 hbelow
          exact ⟨below, hvisible, rfl,
            (arrives_iff htree hne (hvisible_straight hvisible)).2 hthere⟩
    · exact absurd hnext List.not_mem_nil
  · rintro ⟨below, hvisible, rfl, hthere⟩
    rw [if_pos (isDirectory_of_arrives hlocate hthere)]
    by_cases hne : below = []
    · simp [hne]
    · rw [arrives_iff htree hne (hvisible_straight hvisible)] at hthere
      exact List.mem_cons_of_mem _ (List.mem_map.2
        ⟨below, (mem_visibleBelow htree hlocate).2 ⟨hne, hvisible, hthere⟩, rfl⟩)

/-- A step leads to the paths by its moves that are there. -/
theorem mem_follow_iff (htree : tree.WellFormed) (hlocate : tree.locate path = .ok found) :
    next ∈ tree.follow path step ↔
      ∃ below, step.Moves below ∧ next = path.extend below ∧ tree.Arrives found below := by
  cases step with
  | name text => exact mem_follow_name hlocate
  | wild hidden parts => exact mem_follow_wild htree hlocate
  | anyDepth => exact mem_follow_anyDepth htree hlocate
  | directory =>
      rw [follow, mem_stay_iff hlocate]
      simp only [Step.Moves, exists_eq_left]

/-! ### All steps -/

/-- The paths to which the steps of a pattern lead, in the order of the search. -/
def reached (tree : FileTree) (anchor : String) (steps : List Step) : List Path :=
  steps.foldl (fun paths step => paths.flatMap fun path => tree.follow path step) [⟨anchor, []⟩]

theorem matching_eq (tree : FileTree) (pattern : Pattern) :
    tree.matching pattern = (tree.reached pattern.anchor pattern.steps).mergeSort Path.le := rfl

theorem mem_reached_snoc {anchor : String} {steps : List Step} :
    next ∈ tree.reached anchor (steps ++ [step]) ↔
      ∃ path ∈ tree.reached anchor steps, next ∈ tree.follow path step := by
  simp [reached]

/-- What a pattern finds is there, under names that the pattern spells. -/
theorem exists_of_mem_reached (htree : tree.WellFormed) {anchor : String} {steps : List Step}
    (hmem : path ∈ tree.reached anchor steps) :
    path.anchor = anchor ∧ Pattern.Spells steps path.names ∧
      ∃ goal node, tree.locate path = .ok goal ∧ tree.node? goal = some node := by
  induction steps using List.reverseRecOn generalizing path with
  | nil =>
      obtain rfl := List.mem_singleton.1 hmem
      exact ⟨rfl, ⟨[], .nil, rfl⟩, _, _, rfl, htree.node?_start _⟩
  | append_singleton steps step ih =>
      obtain ⟨before, hbefore, hnext⟩ := mem_reached_snoc.1 hmem
      obtain ⟨hanchor, hspells, found, node, hfound, hnode⟩ := ih hbefore
      obtain ⟨below, hmoves, rfl, goal, last, hgoal, hlast, -⟩ :=
        (mem_follow_iff htree hfound).1 hnext
      exact ⟨hanchor, hspells.snoc hmoves, goal, last, (locate_extend hfound below).trans hgoal,
        hlast⟩

/-! ### Two trees -/

/-- Two trees have the same at all places but some, and below these nothing else. -/
structure AgreeBut (z : Place → Prop) (first second : FileTree) : Prop where
  wellFormed : first.WellFormed ∧ second.WellFormed
  here : first.here = second.here
  same : ∀ place, ¬ z place → first.node? place = second.node? place
  below : ∀ place name, z place →
    first.node? (place ++ [name]) ≠ none ∨ second.node? (place ++ [name]) ≠ none →
      z (place ++ [name])

namespace AgreeBut

variable {z : Place → Prop} {goal : Place}

theorem symm (hagree : AgreeBut z first second) : AgreeBut z second first where
  wellFormed := hagree.wellFormed.symm
  here := hagree.here.symm
  same place hout := (hagree.same place hout).symm
  below place name hz hnode := hagree.below place name hz hnode.symm

/-- Names that lead to something outside lead there in both trees, if they nowhere go up
from one of the places that differ. -/
theorem locateFrom (hagree : AgreeBut z first second)
    (hgoal : first.locateFrom place names = .ok goal) (hnode : first.node? goal = some node)
    (hout : ¬ z goal)
    (hup : ∀ before after, names = before ++ ".." :: after → ¬ z (place.goal before)) :
    ¬ z place ∧ second.locateFrom place names = .ok goal := by
  induction names generalizing place with
  | nil =>
      obtain rfl := Except.ok.inj hgoal
      exact ⟨hout, rfl⟩
  | cons name rest ih =>
      have hplace := directory_of_locateFrom_cons hgoal
      rw [locateFrom_cons hplace] at hgoal
      obtain ⟨hnext, hsecond⟩ := ih hgoal fun before after heq =>
        hup (name :: before) after (by rw [heq, List.cons_append])
      have hstart : ¬ z place := by
        by_cases hname : name = ".."
        · exact hup [] rest (by rw [hname, List.nil_append])
        · -- Below a place that differs the next one would differ, too.
          intro hz
          obtain ⟨there, hthere⟩ := exists_node_of_locateFrom hgoal hnode
          rw [Place.next_of_ne _ hname] at hnext hthere
          exact hnext (hagree.below _ _ hz (.inl (by simp [hthere])))
      rw [hagree.same _ hstart] at hplace
      exact ⟨hstart, by rw [locateFrom_cons hplace, hsecond]⟩

/-- What a pattern finds outside in one tree it finds in the other. -/
theorem mem_reached (hagree : AgreeBut z first second) {anchor : String} {steps : List Step}
    (hmem : path ∈ first.reached anchor steps) (hgoal : first.locate path = .ok goal)
    (hnode : first.node? goal = some node) (hout : ¬ z goal)
    (hup : ∀ before after, steps = before ++ .name ".." :: after → ∀ names,
      Pattern.Spells before names → ¬ z ((Path.mk anchor names).place first.here)) :
    path ∈ second.reached anchor steps ∧ second.locate path = .ok goal := by
  induction steps using List.reverseRecOn generalizing path goal node with
  | nil =>
      obtain rfl := List.mem_singleton.1 hmem
      refine ⟨hmem, ?_⟩
      rw [← hgoal]
      change Except.ok ((Path.mk anchor []).start second.here) =
        .ok ((Path.mk anchor []).start first.here)
      rw [hagree.here]
  | append_singleton steps step ih =>
      obtain ⟨before, hbefore, hnext⟩ := mem_reached_snoc.1 hmem
      obtain ⟨rfl, hspells, found, there, hfound, hthere⟩ :=
        exists_of_mem_reached hagree.wellFormed.1 hbefore
      obtain ⟨below, hmoves, rfl, last, lastNode, hlast, hlastNode, hkind⟩ :=
        (mem_follow_iff hagree.wellFormed.1 hfound).1 hnext
      obtain rfl : last = goal := by
        rw [locate_extend hfound, hlast] at hgoal
        exact Except.ok.inj hgoal
      obtain ⟨hfoundOut, hsecond⟩ := hagree.locateFrom hlast hnode hout fun first' after heq => by
        obtain ⟨rfl, hbelow⟩ := Step.eq_up_of_moves hmoves (by simp [heq])
        obtain rfl : first' = [] := by
          rw [hbelow] at heq
          cases first' with
          | nil => rfl
          | cons name rest => simp at heq
        rw [Place.goal_nil, place_of_locate hfound]
        exact hup steps [] rfl _ hspells
      obtain ⟨hreached, hlocate⟩ := ih hbefore hfound hthere hfoundOut fun early late heq =>
        hup early (late ++ [step]) (by rw [heq]; simp)
      rw [hagree.same _ hfoundOut] at hthere
      rw [hagree.same _ hout] at hlastNode
      refine ⟨mem_reached_snoc.2 ⟨before, hreached, ?_⟩, (locate_extend hlocate below).trans hsecond⟩
      exact (mem_follow_iff hagree.wellFormed.2 hlocate).2
        ⟨below, hmoves, rfl, last, lastNode, hsecond, hlastNode, hkind⟩

end AgreeBut

end FileTree

end DesignTokens
