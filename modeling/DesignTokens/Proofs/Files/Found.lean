import Mathlib.Data.List.Nodup
import Mathlib.Data.String.Basic
import DesignTokens.Proofs.Files.Searching
import DesignTokens.Proofs.Traced

/-!
# The files that patterns find

The files that a pattern stands for are put in the order of their paths, and each counts
once. So the list is determined by which files are found, not by how the search came upon
them: two trees in which a pattern finds the same files give the same list.
-/

namespace DesignTokens

namespace Path

theorem lex_iff {α : Type} [BEq α] [LawfulBEq α] (lt : α → α → Bool) (first second : List α) :
    first.lex second lt = true ↔ List.Lex (fun x y => lt x y = true) first second := by
  induction first generalizing second with
  | nil => cases second <;> simp
  | cons x rest ih =>
      cases second with
      | nil => simp
      | cons y more => simp [List.lex, List.cons_lex_cons_iff, ih]

theorem before_iff (a b : String) : before a b = true ↔ a < b := by
  rw [before, lex_iff, String.lt_iff_toList_lt]
  simp only [decide_eq_true_iff]
  exact Iff.rfl

/-- Paths are ordered by their anchors, then by their names. -/
theorem le_iff (a b : Path) :
    le a b = true ↔ toLex (a.anchor, a.names) ≤ toLex (b.anchor, b.names) := by
  have hnames : b.names.lex a.names before = true ↔ b.names < a.names := by
    rw [lex_iff]
    simp only [before_iff]
    exact Iff.rfl
  rw [Prod.Lex.toLex_le_toLex, ← not_lt (a := b.names), ← hnames, ← before_iff, le]
  simp

theorem le_trans_of_le {a b c : Path} (hab : le a b = true) (hbc : le b c = true) :
    le a c = true := by
  rw [le_iff] at *
  exact hab.trans hbc

theorem le_or_le (a b : Path) : (le a b || le b a) = true := by
  rw [Bool.or_eq_true, le_iff, le_iff]
  exact total_of (· ≤ ·) _ _

theorem eq_of_le_of_le {a b : Path} (hab : le a b = true) (hba : le b a = true) : a = b := by
  rw [le_iff] at *
  have heq := toLex.injective (hab.antisymm hba)
  cases a
  cases b
  simpa using heq

end Path

namespace FileTree

variable {first second tree : FileTree} {found more : List Path} {path : Path}

/-- What is added to a list of paths: some of the new ones, in their order and each once. -/
theorem exists_addNew_eq (found more : List Path) : ∃ added, addNew found more = found ++ added ∧
    added.Sublist more ∧ added.Nodup ∧ ∀ path, path ∈ added ↔ path ∈ more ∧ path ∉ found := by
  induction more using List.reverseRecOn with
  | nil => exact ⟨[], by simp [addNew], by simp⟩
  | append_singleton more last ih =>
      obtain ⟨added, hadded, hsub, hnodup, hmem⟩ := ih
      have hstep : addNew found (more ++ [last]) =
          if last ∈ found ++ added then found ++ added else found ++ added ++ [last] := by
        rw [← hadded, addNew, addNew, List.foldl_append]
        rfl
      by_cases hlast : last ∈ found ++ added
      · refine ⟨added, by rw [hstep, if_pos hlast], hsub.trans (List.sublist_append_left _ _),
          hnodup, fun path => ?_⟩
        rw [hmem, List.mem_append, List.mem_singleton]
        have hold : last ∈ found ∨ last ∈ more ∧ last ∉ found := by
          rwa [List.mem_append, hmem] at hlast
        constructor
        · exact fun h => ⟨.inl h.1, h.2⟩
        · rintro ⟨h | rfl, hnew⟩
          · exact ⟨h, hnew⟩
          · exact hold.resolve_left hnew
      · obtain ⟨hfound, hnew⟩ := not_or.1 (mt List.mem_append.2 hlast)
        refine ⟨added ++ [last], by rw [hstep, if_neg hlast, List.append_assoc],
          hsub.append (List.Sublist.refl _), ?_, fun path => ?_⟩
        · rw [List.nodup_append]
          refine ⟨hnodup, List.nodup_singleton _, fun a ha b hb heq => ?_⟩
          exact hnew ((List.mem_singleton.1 hb) ▸ heq ▸ ha)
        · rw [List.mem_append, hmem, List.mem_append, List.mem_singleton]
          constructor
          · rintro (⟨h, hout⟩ | rfl)
            · exact ⟨.inl h, hout⟩
            · exact ⟨.inr rfl, hfound⟩
          · rintro ⟨h | h, hout⟩
            · exact .inl ⟨h, hout⟩
            · exact .inr h

theorem mem_addNew : path ∈ addNew found more ↔ path ∈ found ∨ path ∈ more := by
  obtain ⟨added, hadded, -, -, hmem⟩ := exists_addNew_eq found more
  rw [hadded, List.mem_append, hmem]
  by_cases h : path ∈ found <;> simp [h]

/-- Lists in order that have the same members add the same. -/
theorem addNew_congr {other : List Path} (hmore : more.Pairwise fun a b => Path.le a b = true)
    (hother : other.Pairwise fun a b => Path.le a b = true)
    (hsame : ∀ path, path ∈ more ↔ path ∈ other) : addNew found more = addNew found other := by
  obtain ⟨added, hadded, hsub, hnodup, hmem⟩ := exists_addNew_eq found more
  obtain ⟨added', hadded', hsub', hnodup', hmem'⟩ := exists_addNew_eq found other
  have hperm : added.Perm added' := by
    rw [List.perm_ext_iff_of_nodup hnodup hnodup']
    intro path
    rw [hmem, hmem', hsame]
  rw [hadded, hadded', hperm.eq_of_pairwise (fun _ _ _ _ => Path.eq_of_le_of_le)
    (hmore.sublist hsub) (hother.sublist hsub')]

/-- The files that a pattern finds. -/
def filesOf (tree : FileTree) (pattern : Pattern) : List Path :=
  (tree.matching pattern).filter tree.isFile

theorem pairwise_filesOf (tree : FileTree) (pattern : Pattern) :
    (tree.filesOf pattern).Pairwise fun a b => Path.le a b = true := by
  rw [filesOf, matching_eq]
  exact (@List.pairwise_mergeSort _ Path.le (fun _ _ _ => Path.le_trans_of_le) Path.le_or_le
    _).filter _

theorem mem_filesOf {pattern : Pattern} : path ∈ tree.filesOf pattern ↔
    path ∈ tree.reached pattern.anchor pattern.steps ∧ tree.isFile path := by
  rw [filesOf, List.mem_filter, matching_eq, List.mem_mergeSort]

theorem result_note_bind {α : Type} (notice : Notice) (f : Unit → Traced α) :
    (Traced.note notice >>= f).result = (f ()).result := rfl

/-- The expansion of patterns never fails, and adds up what each of them finds. -/
theorem result_expand (tree : FileTree) (root : Path) (patterns : List String) :
    (tree.expand root patterns).result =
      .ok (patterns.foldl (fun found text => addNew found (tree.filesOf (patternIn root text))) []) := by
  rw [expand]
  generalize ([] : List Path) = found
  induction patterns generalizing found with
  | nil => rfl
  | cons text rest ih =>
      rw [List.foldlM_cons, List.foldl_cons, ← ih, filesOf]
      by_cases hempty : (tree.matching (patternIn root text)).isEmpty
      · simp only [hempty, if_true, bind_assoc, result_note_bind, pure_bind]
      · simp only [hempty]
        rfl

theorem mem_expand {root : Path} {patterns : List String}
    (hfound : (tree.expand root patterns).result = .ok found) :
    path ∈ found ↔ ∃ text ∈ patterns, path ∈ tree.filesOf (patternIn root text) := by
  rw [result_expand] at hfound
  obtain rfl := Except.ok.inj hfound
  induction patterns using List.reverseRecOn with
  | nil => simp
  | append_singleton rest text ih =>
      rw [List.foldl_append, List.foldl_cons, List.foldl_nil, mem_addNew, ih rfl]
      simp [or_and_right, exists_or]

end FileTree

/-- No file that the pattern can lead to lies inside, and it goes up from no place that
differs. -/
structure Pattern.Avoids (pattern : Pattern) (here : Place) (inside differs : Place → Prop) :
    Prop where
  file : ∀ names, Pattern.Spells pattern.steps names →
    ¬ inside ((Path.mk pattern.anchor names).place here)
  up : ∀ before after, pattern.steps = before ++ .name ".." :: after → ∀ names,
    Pattern.Spells before names → ¬ differs ((Path.mk pattern.anchor names).place here)

/-- The path ends outside the places that differ, and goes up from none of them. -/
structure Path.Avoids (path : Path) (here : Place) (differs : Place → Prop) : Prop where
  goal : ¬ differs (path.place here)
  up : ∀ before after, path.names = before ++ ".." :: after →
    ¬ differs ((Path.mk path.anchor before).place here)

/-- A pattern without double dots that begins with plain names avoids what does not lie below
them. -/
theorem Pattern.avoids_of_names {pattern : Pattern} {first : List String} {rest : List Step}
    {here : Place} {inside differs : Place → Prop} (hsteps : pattern.steps = first.map .name ++ rest)
    (hplain : "." ∉ first) (hup : ".." ∉ first) (hrest : .name ".." ∉ rest)
    (hinside : ∀ below, ¬ inside ((Path.mk pattern.anchor first).place here ++ below)) :
    pattern.Avoids here inside differs where
  file names hspells := by
    rw [hsteps] at hspells
    obtain ⟨more, rfl, hmore⟩ := hspells.exists_eq_append hplain
    have hplace : (Path.mk pattern.anchor (first ++ more)).place here =
        (Path.mk pattern.anchor first).place here ++ more :=
      (Place.goal_append _ _ _).trans (Place.goal_eq_append (hmore.up_not_mem hrest) _)
    rw [hplace]
    exact hinside more
  up before after heq := by
    have hmem : Step.name ".." ∈ pattern.steps := by simp [heq]
    rw [hsteps, List.mem_append, List.mem_map] at hmem
    rcases hmem with ⟨name, hname, hstep⟩ | hmem
    · exact absurd (Step.name.inj hstep ▸ hname) hup
    · exact absurd hmem hrest

/-- A path without double dots goes up from nowhere. -/
theorem Path.avoids_of_not_mem {path : Path} {here : Place} {differs : Place → Prop}
    (hup : ".." ∉ path.names) (hgoal : ¬ differs (path.place here)) : path.Avoids here differs where
  goal := hgoal
  up before after heq := absurd (by simp [heq]) hup

namespace FileTree.AgreeBut

variable {first second : FileTree} {differs inside : Place → Prop} {path : Path} {goal : Place}
  {pattern : Pattern} {node : FileNode}

theorem readText_eq (hagree : AgreeBut differs first second) (hfirst : first.locate path = .ok goal)
    (hsecond : second.locate path = .ok goal) (hout : ¬ differs goal) :
    first.readText path = second.readText path := by
  simp only [readText, hfirst, hsecond, bind, Except.bind, hagree.same _ hout]

/-- A file that a pattern finds in one tree is found in the other and has the same text. -/
theorem mem_filesOf (hagree : AgreeBut differs first second)
    (hfiles : ∀ place, differs place → first.HasFile place → inside place)
    (havoids : pattern.Avoids first.here inside differs) (hmem : path ∈ first.filesOf pattern) :
    path ∈ second.filesOf pattern ∧ first.readText path = second.readText path := by
  obtain ⟨hreached, hfile⟩ := FileTree.mem_filesOf.1 hmem
  obtain ⟨hanchor, hspells, goal, node, hgoal, hnode⟩ :=
    exists_of_mem_reached hagree.wellFormed.1 hreached
  have hgoalFile := (isFile_iff hgoal).1 hfile
  have hout : ¬ differs goal := by
    intro hdiffers
    have hinside := hfiles goal hdiffers hgoalFile
    rw [place_of_locate hgoal] at hinside
    have hspelled := havoids.file _ hspells
    rw [← hanchor] at hspelled
    exact hspelled hinside
  obtain ⟨hreached', hgoal'⟩ := hagree.mem_reached hreached hgoal hnode hout havoids.up
  rw [hasFile_congr (hagree.same _ hout)] at hgoalFile
  exact ⟨FileTree.mem_filesOf.2 ⟨hreached', (isFile_iff hgoal').2 hgoalFile⟩,
    hagree.readText_eq hgoal hgoal' hout⟩

/-- Patterns that avoid the places that differ find the same files. -/
theorem result_expand_eq (hagree : AgreeBut differs first second)
    (hfiles : ∀ place, differs place → first.HasFile place ∨ second.HasFile place → inside place)
    {root : Path} {patterns : List String}
    (havoids : ∀ text ∈ patterns, (patternIn root text).Avoids first.here inside differs) :
    (first.expand root patterns).result = (second.expand root patterns).result := by
  have hsame (text : String) (htext : text ∈ patterns) (path : Path) :
      path ∈ first.filesOf (patternIn root text) ↔ path ∈ second.filesOf (patternIn root text) := by
    constructor
    · exact fun h => (hagree.mem_filesOf (fun place hz hf => hfiles place hz (.inl hf))
        (havoids text htext) h).1
    · exact fun h => (hagree.symm.mem_filesOf (fun place hz hf => hfiles place hz (.inr hf))
        (hagree.here ▸ havoids text htext) h).1
  rw [result_expand, result_expand]
  congr 1
  refine List.foldl_ext _ _ _ fun found text htext => ?_
  exact addNew_congr (pairwise_filesOf _ _) (pairwise_filesOf _ _) (hsame text htext)

/-- The files that patterns find have the same texts in both trees. -/
theorem readText_eq_of_mem_expand (hagree : AgreeBut differs first second)
    (hfiles : ∀ place, differs place → first.HasFile place ∨ second.HasFile place → inside place)
    {root : Path} {patterns : List String} {found : List Path}
    (havoids : ∀ text ∈ patterns, (patternIn root text).Avoids first.here inside differs)
    (hfound : (first.expand root patterns).result = .ok found) (hmem : path ∈ found) :
    first.readText path = second.readText path := by
  obtain ⟨text, htext, hfile⟩ := (mem_expand hfound).1 hmem
  exact (hagree.mem_filesOf (fun place hz hf => hfiles place hz (.inl hf)) (havoids text htext)
    hfile).2

/-- What lies at the end of a path that avoids the places that differ is the same in both. -/
theorem at?_eq_some (hagree : AgreeBut differs first second)
    (havoids : path.Avoids first.here differs) (hnode : first.at? path = some node) :
    second.at? path = some node ∧ first.readText path = second.readText path := by
  rw [at?] at hnode
  split at hnode
  · next goal hgoal =>
      have hout : ¬ differs goal := by
        rw [place_of_locate hgoal]
        exact havoids.goal
      obtain ⟨-, hsecond⟩ := hagree.locateFrom hgoal hnode hout havoids.up
      have hlocate : second.locate path = .ok goal := by
        rw [← hsecond, locate, startOf_eq, startOf_eq, hagree.here]
      refine ⟨?_, hagree.readText_eq hgoal hlocate hout⟩
      rw [at?_of_locate hlocate, ← hagree.same _ hout, hnode]
  · simp at hnode

theorem isNone_at?_eq (hagree : AgreeBut differs first second)
    (havoids : path.Avoids first.here differs) :
    (first.at? path).isNone = (second.at? path).isNone := by
  have havoids' : path.Avoids second.here differs := hagree.here ▸ havoids
  cases hfirst : first.at? path with
  | some node => rw [(hagree.at?_eq_some havoids hfirst).1]
  | none =>
      cases hsecond : second.at? path with
      | some node =>
          rw [(hagree.symm.at?_eq_some havoids' hsecond).1] at hfirst
          exact absurd hfirst (by simp)
      | none => rfl

end FileTree.AgreeBut

end DesignTokens
