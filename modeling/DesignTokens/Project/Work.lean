import DesignTokens.Files.Tree
import DesignTokens.Traced

/-!
# Work on files

A computation that reads and writes files and reports on its way. It ends in a value
or an error, and either way what it has written and reported remains: a build that
fails half-way leaves the files that it finished.
-/

namespace DesignTokens

structure WorkState where
  files : FileTree
  notices : List Notice

abbrev Work := ExceptT Error (StateM WorkState)

namespace Work

variable {α : Type}

/-- The files as they are now. -/
def files : Work FileTree := do
  return (← get).files

/-- A computation on the files as they are now, which changes none of them. -/
def reading (f : FileTree → Traced α) : Work α := do
  let state ← get
  let found := f state.files
  set { state with notices := state.notices ++ found.notices }
  MonadExcept.ofExcept found.result

def note (notice : Notice) : Work Unit :=
  reading fun _ => Traced.note notice

/-- Writes a file as a whole or not at all. -/
def write (path : Path) (content : String) : Work Unit := do
  let state ← get
  let (done, files) := state.files.writeWhole path content
  set { state with files }
  MonadExcept.ofExcept (done.mapError .file)

/-- The outcome of `work` as a value. -/
def attempt (work : Work α) : Work (Except Error α) := fun state =>
  let (outcome, after) := work.run.run state
  (.ok outcome, after)

/-- The outcome and the files after `work`. -/
def start (work : Work α) (files : FileTree) : Traced α × FileTree :=
  let (outcome, after) := work.run.run ⟨files, []⟩
  (⟨after.notices, outcome⟩, after.files)

@[simp]
theorem files_start_reading (f : FileTree → Traced α) (files : FileTree) :
    (start (reading f) files).2 = files := by
  change ((MonadExcept.ofExcept (f files).result : Work α) ⟨files, (f files).notices⟩).2.files =
    files
  cases (f files).result <;> rfl

end Work

end DesignTokens
