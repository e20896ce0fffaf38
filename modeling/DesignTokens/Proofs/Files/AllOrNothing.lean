import DesignTokens.Proofs.Files.Rewriting
import DesignTokens.Proofs.Files.Searching

/-!
# A write is all or nothing

A file is written beside its target and moved there. Whichever step fails, all files are
left as they were, the target with them, and nothing is left of the file beside it; at most
some directories on the way are new. If no step fails, the target has the text, there are
directories on the way to it, and the file beside it is gone.
-/

namespace DesignTokens

namespace FileTree

variable {tree after : FileTree} {names : List String} {place found : Place} {path : Path}
  {content : String}

/-! ### Paths in a tree that has more directories -/

section Directories

variable (hdirectory : ∀ place, tree.node? place = some .directory →
  after.node? place = some .directory)

include hdirectory

theorem locateFrom_of_directories (hfound : tree.locateFrom place names = .ok found) :
    after.locateFrom place names = .ok found := by
  induction names generalizing place with
  | nil => exact hfound
  | cons name rest ih =>
      have hplace := directory_of_locateFrom_cons hfound
      rw [locateFrom_cons hplace] at hfound
      rw [locateFrom_cons (hdirectory _ hplace)]
      exact ih hfound

theorem locate_of_directories (hhere : after.here = tree.here)
    (hfound : tree.locate path = .ok found) : after.locate path = .ok found := by
  rw [locate, startOf_eq, hhere]
  exact locateFrom_of_directories hdirectory hfound

end Directories

theorem openWay_eq_way_iff {first : Place} :
    tree.openWay first names = first.way names ↔ ∀ other ∈ first.way names, ¬ tree.HasFile other := by
  simp [openWay, List.takeWhile_eq_self_iff]

/-- A file can be written unless a file is on the way to it, or a directory, be it one that
is made on the way, where it is to go or beside that. -/
theorem writeWhole_eq_ok_iff (htree : tree.WellFormed) (path : Path) (content : String) :
    (tree.writeWhole path content).1 = .ok () ↔
      (∀ place ∈ path.parent.way tree.here, ¬ tree.HasFile place) ∧
        ¬ tree.DirectoryWith (path.parent.way tree.here) (path.temporaryPlace tree.here) ∧
        ¬ tree.DirectoryWith (path.parent.way tree.here) (path.place tree.here) := by
  have hopen : tree.openWay (path.parent.start tree.here) path.parent.names =
      path.parent.way tree.here ↔ _ := openWay_eq_way_iff
  rw [(writeWhole_spec htree path content).2, editOf]
  by_cases hway : tree.openWay (path.parent.start tree.here) path.parent.names =
      path.parent.way tree.here
  · have hclear : ∀ place ∈ path.parent.way tree.here, ¬ tree.HasFile place := hopen.1 hway
    simp only [hway, ne_eq, not_true_eq_false, false_or]
    split_ifs <;> simp_all
  · have hfile : ¬ ∀ place ∈ path.parent.way tree.here, ¬ tree.HasFile place := mt hopen.2 hway
    simp [hway, hfile]

/-- What lies at a path lies there after a write too, old or new, unless it is the file beside
the target. -/
theorem isSome_at?_writeWhole (htree : tree.WellFormed) {other : Path}
    (hother : other.place tree.here ≠ path.temporaryPlace tree.here)
    (hsome : (tree.at? other).isSome) : ((tree.writeWhole path content).2.at? other).isSome := by
  obtain ⟨hedited, -⟩ := writeWhole_spec htree path content
  obtain ⟨found, node, hlocate, hnode⟩ := (tree.isSome_at?_iff other).1 hsome
  rw [place_of_locate hlocate] at hnode
  rw [at?_of_locate (locate_of_directories (fun _ => directory_writeWhole htree) hedited.here
    hlocate), place_of_locate hlocate, hedited.node?]
  rcases (tree.editOf path content).apply_cases tree.node? (other.place tree.here) with
    ⟨-, h⟩ | ⟨-, hcleared, -⟩ | ⟨-, -, -, h⟩ | ⟨-, -, -, h⟩
  · simp [h]
  · exact absurd (cleared_editOf hcleared).1 hother
  · simp [h]
  · simp [h, hnode]

end FileTree

end DesignTokens
