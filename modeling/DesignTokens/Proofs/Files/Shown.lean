import DesignTokens.Proofs.Files.Found
import DesignTokens.Proofs.Text

/-!
# Paths and their texts

A path is written as its anchor and its names with slashes between them. The paths that a
text can name are read back from their texts, so two of them with one text are one path. In a
tree whose entries have proper names, patterns find such paths only.
-/

namespace DesignTokens

namespace Path

/-- A name that says something and can stand between slashes. -/
def IsName (name : String) : Prop :=
  name ≠ "" ∧ name ≠ "." ∧ '/' ∉ name.toList

instance (name : String) : Decidable (IsName name) :=
  inferInstanceAs (Decidable (_ ∧ _))

/-- A path that a text can name. -/
structure Plain (path : Path) : Prop where
  anchor : path.anchor ∈ ["", "/", "//"]
  names : ∀ name ∈ path.names, IsName name

theorem slash_not_mem_of_mem_fields {name text : String} (hname : name ∈ Text.fields '/' text) :
    '/' ∉ name.toList := by
  obtain ⟨stretch, hstretch, rfl⟩ := List.mem_map.1 hname
  rw [String.toList_ofList]
  intro hmem
  simpa using Text.isGap_of_mem_stretches hstretch '/' hmem

theorem plain_ofText (text : String) : (ofText text).Plain where
  anchor := by
    rw [ofText]
    split
    · simp
    · split <;> simp
  names := by
    intro name hname
    obtain ⟨hfield, hkept⟩ := List.mem_filter.1 hname
    simp only [Bool.and_eq_true, Bool.not_eq_true', bne_iff_ne,
      String.isEmpty_eq_false_iff] at hkept
    exact ⟨hkept.1, hkept.2, slash_not_mem_of_mem_fields hfield⟩

/-- The names that are written with slashes between them are the ones that are read. -/
theorem filter_stretches_intercalate {names : List String} (hnames : ∀ name ∈ names, IsName name) :
    (((Text.stretches (· == '/') (['/'].intercalate (names.map String.toList))).map
      String.ofList).filter fun name => !name.isEmpty && name != ".") = names := by
  by_cases hnone : names = []
  · subst hnone
    rfl
  · have hparts : ∀ part ∈ names.map String.toList, '/' ∉ part := by
      intro part hpart
      obtain ⟨name, hname, rfl⟩ := List.mem_map.1 hpart
      exact (hnames name hname).2.2
    rw [Text.stretches_intercalate_eq_self (by simpa using hnone) hparts, List.map_map]
    simp only [Function.comp_def, String.ofList_toList, List.map_id', List.filter_eq_self]
    intro name hname
    simp [(hnames name hname).1, (hnames name hname).2.1]

theorem takeWhile_slash_intercalate {names : List String} (hnames : ∀ name ∈ names, IsName name) :
    (['/'].intercalate (names.map String.toList)).takeWhile (· == '/') = [] := by
  cases names with
  | nil => rfl
  | cons name rest =>
      obtain ⟨hempty, -, hslash⟩ := hnames name List.mem_cons_self
      obtain ⟨c, chars, hchars⟩ := List.exists_cons_of_ne_nil (mt String.toList_eq_nil_iff.1 hempty)
      rw [hchars, List.mem_cons, not_or] at hslash
      have hfirst : (c == '/') = false := beq_false_of_ne (Ne.symm hslash.1)
      cases rest with
      | nil => simp [hchars, hfirst]
      | cons second more => simp [hchars, hfirst, List.intercalate_cons_cons]

/-- A path that a text can name is the one that its own text names. -/
theorem ofText_shown {path : Path} (hpath : path.Plain) : ofText path.shown = path := by
  obtain ⟨anchor, names⟩ := path
  obtain ⟨hanchor, hnames⟩ := hpath
  dsimp only at hanchor hnames
  have hread := filter_stretches_intercalate hnames
  have hslashes := takeWhile_slash_intercalate hnames
  have hcut (chars : List Char) : Text.stretches (· == '/') ('/' :: chars) =
      [] :: Text.stretches (· == '/') chars := by
    rw [Text.stretches, if_pos (beq_self_eq_true '/')]
  rw [shown]
  split
  · next hnone =>
      simp only [Bool.and_eq_true, String.isEmpty_iff, List.isEmpty_iff] at hnone
      rw [hnone.1, hnone.2]
      decide
  · rw [ofText, Text.fields, String.toList_append, String.toList_intercalate]
    simp only [List.mem_cons, List.not_mem_nil, or_false] at hanchor
    rcases hanchor with rfl | rfl | rfl
    · simpa [hslashes] using hread
    · simpa [hslashes, hcut] using hread
    · simpa [hslashes, hcut] using hread

theorem shown_inj {first second : Path} (hfirst : first.Plain) (hsecond : second.Plain) :
    first.shown = second.shown ↔ first = second := by
  constructor
  · intro hshown
    rw [← ofText_shown hfirst, ← ofText_shown hsecond, hshown]
  · exact congrArg shown

theorem Plain.extend {path : Path} (hpath : path.Plain) {below : List String}
    (hbelow : ∀ name ∈ below, IsName name) : (path.extend below).Plain where
  anchor := hpath.anchor
  names := List.forall_mem_append.2 ⟨hpath.names, hbelow⟩

end Path

namespace FileTree

open DesignTokens.Path

/-- Every entry lies under proper names. -/
def Named (tree : FileTree) : Prop :=
  ∀ entry ∈ tree.entries, ∀ name ∈ entry.1, IsName name

variable {tree : FileTree} {path next : Path}

/-- A step of a pattern that no text with a slash in a name has. -/
def PlainStep (step : Step) : Prop :=
  ∀ text, step = .name text → text ≠ "" ∧ '/' ∉ text.toList

theorem plainStep_of_ne {step : Step} (hstep : ∀ text, step ≠ .name text) : PlainStep step :=
  fun text heq => absurd heq (hstep text)

theorem plainStep_ofText {text : String} (hempty : text ≠ "") (hslash : '/' ∉ text.toList) :
    PlainStep (Step.ofText text) := by
  rw [Step.ofText]
  split
  · exact plainStep_of_ne (by simp)
  · split
    · exact plainStep_of_ne (by simp)
    · rintro other heq
      obtain rfl := Step.name.inj heq
      exact ⟨hempty, hslash⟩

theorem plainStep_of_mem_steps {anchor text : String} :
    ∀ step ∈ (Pattern.ofText anchor text).steps, PlainStep step := by
  intro step hstep
  rcases List.mem_append.1 hstep with hnamed | hclosing
  · obtain ⟨name, hname, rfl⟩ := List.mem_map.1 hnamed
    obtain ⟨hfield, hkept⟩ := List.mem_filter.1 hname
    exact plainStep_ofText (by simpa using hkept) (slash_not_mem_of_mem_fields hfield)
  · split at hclosing
    · rw [List.mem_singleton.1 hclosing]
      exact plainStep_of_ne (by simp)
    · cases hclosing

theorem isName_of_mem_childNames (htree : tree.Named) {name : String}
    (hname : name ∈ tree.childNames path) : IsName name := by
  rw [childNames] at hname
  split at hname
  · obtain ⟨⟨names, node⟩, hentry, hlast⟩ := List.mem_filterMap.1 hname
    dsimp only at hlast
    split at hlast
    · exact htree _ hentry name (List.mem_of_getLast? hlast)
    · cases hlast
  · cases hname

theorem isName_of_mem_visibleBelow (htree : tree.Named) {below : List String}
    (hbelow : below ∈ tree.visibleBelow path) : ∀ name ∈ below, IsName name := by
  rw [visibleBelow] at hbelow
  split at hbelow
  · obtain ⟨entry, hentry, hnames⟩ := List.mem_filterMap.1 hbelow
    dsimp only at hnames
    split at hnames
    · cases hnames
      exact fun name hname => htree entry hentry name (List.mem_of_mem_drop hname)
    · cases hnames
  · cases hbelow

/-- A step leads from a plain path to plain ones. -/
theorem plain_of_mem_follow (htree : tree.Named) {step : Step} (hstep : PlainStep step)
    (hpath : path.Plain) (hnext : next ∈ tree.follow path step) : next.Plain := by
  cases step with
  | name text =>
      obtain ⟨hempty, hslash⟩ := hstep text rfl
      rw [follow] at hnext
      split at hnext
      · split at hnext
        · rwa [List.mem_singleton.1 hnext]
        · cases hnext
      · next hdot =>
          dsimp only at hnext
          split at hnext
          · rw [List.mem_singleton.1 hnext]
            apply hpath.extend
            simpa using ⟨hempty, hdot, hslash⟩
          · cases hnext
  | wild hidden parts =>
      obtain ⟨name, hname, rfl⟩ := List.mem_map.1 hnext
      have hchild := isName_of_mem_childNames htree (List.mem_filter.1 hname).1
      exact hpath.extend (List.forall_mem_singleton.2 hchild)
  | anyDepth =>
      rw [follow] at hnext
      split at hnext
      · rcases List.mem_cons.1 hnext with rfl | hbelow
        · exact hpath
        · obtain ⟨below, hvisible, rfl⟩ := List.mem_map.1 hbelow
          exact hpath.extend (isName_of_mem_visibleBelow htree hvisible)
      · cases hnext
  | directory =>
      rw [follow] at hnext
      split at hnext
      · rwa [List.mem_singleton.1 hnext]
      · cases hnext

theorem plain_of_mem_reached (htree : tree.Named) {anchor : String}
    (hanchor : anchor ∈ ["", "/", "//"]) {steps : List Step}
    (hsteps : ∀ step ∈ steps, PlainStep step) (hpath : path ∈ tree.reached anchor steps) : path.Plain := by
  induction steps using List.reverseRecOn generalizing path with
  | nil =>
      rw [List.mem_singleton.1 hpath]
      exact ⟨hanchor, List.forall_mem_nil _⟩
  | append_singleton steps step ih =>
      rw [List.forall_mem_append, List.forall_mem_singleton] at hsteps
      obtain ⟨before, hbefore, hnext⟩ := mem_reached_snoc.1 hpath
      exact plain_of_mem_follow htree hsteps.2 (ih hsteps.1 hbefore) hnext

/-- What patterns find are plain paths. -/
theorem plain_of_mem_expand (htree : tree.Named) {root : Path} (hroot : root.Plain)
    {patterns : List String} {found : List Path}
    (hfound : (tree.expand root patterns).result = .ok found) : ∀ path ∈ found, path.Plain := by
  intro path hpath
  obtain ⟨text, -, hmem⟩ := (mem_expand hfound).1 hpath
  have hreached := (mem_filesOf.1 hmem).1
  rw [patternIn] at hreached
  split at hreached
  · exact plain_of_mem_reached htree (plain_ofText text).anchor plainStep_of_mem_steps hreached
  · exact plain_of_mem_reached htree hroot.anchor plainStep_of_mem_steps hreached

end FileTree

end DesignTokens
