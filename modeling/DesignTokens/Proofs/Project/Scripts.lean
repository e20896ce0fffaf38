import DesignTokens.Project.Work
import DesignTokens.Proofs.Files.Rewriting

/-!
# Work that follows a script

A script says beforehand which files are written and how the work ends once they are. Work
follows a script on all trees of a kind if it comes to the same on each of them: what it
reads is the same on all, and what it writes does not lead out of the kind.
-/

namespace DesignTokens

/-- Files to be written, and the outcome if all of them are. -/
structure Script (α : Type) where
  writes : List (Path × String)
  outcome : Except Error α

namespace Script

variable {α β : Type}

/-- The outcome of a script and the files after it. -/
def run (script : Script α) (files : FileTree) : Except Error α × FileTree :=
  match files.writeAll script.writes with
  | (.ok _, after) => (script.outcome, after)
  | (.error fault, left) => (.error (.file fault), left)

theorem files_run (script : Script α) (files : FileTree) :
    (script.run files).2 = (files.writeAll script.writes).2 := by
  rw [run]
  rcases files.writeAll script.writes with ⟨_ | _, _⟩ <;> rfl

theorem run_eq_ok {script : Script α} {files after : FileTree} {a : α}
    (hrun : script.run files = (.ok a, after)) :
    files.writeAll script.writes = (.ok (), after) ∧ script.outcome = .ok a := by
  rw [run] at hrun
  rcases hwrites : files.writeAll script.writes with ⟨fault | done, last⟩
  · simp [hwrites] at hrun
  · rw [hwrites, Prod.mk.injEq] at hrun
    exact ⟨by rw [hrun.2], hrun.1⟩

/-- How the outcome is worded: files that cannot be written all have one text. -/
theorem mapError_run (script : Script α) (files : FileTree) :
    (script.run files).1.mapError Error.message =
      if (files.writeAll script.writes).1 = .ok () then
        script.outcome.mapError Error.message
      else
        .error "OS error" := by
  have hfault : (files.writeAll script.writes).1 ≠ .error .notUtf8 := FileTree.writeAll_ne_notUtf8
  rw [run]
  rcases hwrites : files.writeAll script.writes with ⟨fault | done, after⟩
  · rw [hwrites] at hfault
    rw [if_neg (by simp)]
    cases fault <;> first | rfl | exact absurd rfl hfault
  · rw [if_pos rfl]

/-- A script, and the one that goes on with its value. -/
def andThen (first : Script α) (next : α → Script β) : Script β :=
  match first.outcome with
  | .ok a => ⟨first.writes ++ (next a).writes, (next a).outcome⟩
  | .error error => ⟨first.writes, .error error⟩

theorem run_andThen (first : Script α) (next : α → Script β) (files : FileTree) :
    (first.andThen next).run files =
      match first.run files with
      | (.ok a, after) => (next a).run after
      | (.error error, left) => (.error error, left) := by
  rw [andThen, run]
  cases houtcome : first.outcome with
  | error error =>
      simp only [run, houtcome]
      rcases files.writeAll first.writes with ⟨_ | _, _⟩ <;> rfl
  | ok a =>
      simp only [run, houtcome, FileTree.writeAll_append]
      rcases hfirst : files.writeAll first.writes with ⟨_ | _, _⟩ <;> simp

end Script

namespace Work

variable {α β : Type}

/-- The outcome of work that starts in a state, and the files after it. -/
def outcomeFrom (work : Work α) (state : WorkState) : Except Error α × FileTree :=
  let (outcome, after) := work.run.run state
  (outcome, after.files)

theorem run_bind_of_ok {work : Work α} (next : α → Work β) {state after : WorkState} {a : α}
    (hrun : work.run.run state = (.ok a, after)) :
    (work >>= next).run.run state = (next a).run.run after := by
  change ExceptT.bindCont next (work state).1 (work state).2 = _
  change work state = _ at hrun
  rw [hrun]
  rfl

theorem outcomeFrom_bind (work : Work α) (next : α → Work β) (state : WorkState) :
    (work >>= next).outcomeFrom state =
      match work.run.run state with
      | (.ok a, after) => (next a).outcomeFrom after
      | (.error error, left) => (.error error, left.files) := by
  change Prod.map id WorkState.files (ExceptT.bindCont next (work state).1 (work state).2) = _
  change _ = match work state with
    | (.ok a, after) => (next a).outcomeFrom after
    | (.error error, left) => (.error error, left.files)
  rcases work state with ⟨_ | _, _⟩ <;> rfl

theorem outcomeFrom_reading (f : FileTree → Traced α) (state : WorkState) :
    (reading f).outcomeFrom state = ((f state.files).result, state.files) := by
  rcases state with ⟨files, notices⟩
  change Prod.map id WorkState.files ((MonadExcept.ofExcept (f files).result : Work α)
    ⟨files, notices ++ (f files).notices⟩) = _
  cases (f files).result <;> rfl

theorem outcomeFrom_reading_bind (f : FileTree → Traced α) (next : α → Work β)
    (state : WorkState) :
    (reading f >>= next).outcomeFrom state =
      match (f state.files).result with
      | .ok a =>
        (next a).outcomeFrom ⟨state.files, state.notices ++ (f state.files).notices⟩
      | .error error => (.error error, state.files) := by
  rw [outcomeFrom_bind]
  have hrun : (reading f).run.run state = ((f state.files).result,
      ⟨state.files, state.notices ++ (f state.files).notices⟩) := by
    change (MonadExcept.ofExcept (f state.files).result : Work α)
      ⟨state.files, state.notices ++ (f state.files).notices⟩ = _
    cases (f state.files).result <;> rfl
  rw [hrun]
  cases (f state.files).result <;> rfl

theorem outcomeFrom_write (path : Path) (content : String) (state : WorkState) :
    (write path content).outcomeFrom state =
      ((state.files.writeWhole path content).1.mapError .file,
        (state.files.writeWhole path content).2) := by
  rcases state with ⟨files, notices⟩
  change Prod.map id WorkState.files ((MonadExcept.ofExcept
    ((files.writeWhole path content).1.mapError .file) : Work Unit)
      ⟨(files.writeWhole path content).2, notices⟩) = _
  rcases files.writeWhole path content with ⟨_ | _, _⟩ <;> rfl

/-- On all trees of a kind the work comes to the same as the script. -/
def Follows (kind : FileTree → Prop) (work : Work α) (script : Script α) : Prop :=
  ∀ state, kind state.files → work.outcomeFrom state = script.run state.files

/-- The work follows some script that writes allowed files only and, if it ends well, all the
files that it must write. -/
def IsScripted (kind : FileTree → Prop) (allowed : Path → Prop) (must : List Path)
    (work : Work α) : Prop :=
  ∃ script : Script α, (∀ write ∈ script.writes, allowed write.1) ∧
    (∀ a, script.outcome = .ok a → ∀ path ∈ must, path ∈ script.writes.map Prod.fst) ∧
    work.Follows kind script

variable {kind : FileTree → Prop} {allowed : Path → Prop} {must more : List Path}

theorem isScripted_pure (a : α) : IsScripted kind allowed [] (pure a : Work α) :=
  ⟨⟨[], .ok a⟩, by simp, by simp, fun _ _ => rfl⟩

theorem isScripted_throw (error : Error) : IsScripted kind allowed [] (throw error : Work α) :=
  ⟨⟨[], .error error⟩, by simp, by simp, fun _ _ => rfl⟩

/-- Reading follows a script if it has the same result everywhere. -/
theorem isScripted_reading {f : FileTree → Traced α}
    (hsame : ∀ first second, kind first → kind second → (f first).result = (f second).result) :
    IsScripted kind allowed [] (reading f) := by
  by_cases hkind : ∃ files, kind files
  · obtain ⟨files, hfiles⟩ := hkind
    refine ⟨⟨[], (f files).result⟩, by simp, by simp, fun state hstate => ?_⟩
    rw [outcomeFrom_reading, hsame _ _ hstate hfiles]
    rfl
  · exact ⟨⟨[], .error (.file .notFound)⟩, by simp, by simp, fun state hstate =>
      absurd ⟨_, hstate⟩ hkind⟩

theorem isScripted_note (notice : Notice) : IsScripted kind allowed [] (note notice) :=
  isScripted_reading fun _ _ _ _ => rfl

theorem isScripted_write {path : Path} (hpath : allowed path) (content : String) :
    IsScripted kind allowed [path] (write path content) := by
  refine ⟨⟨[(path, content)], .ok ()⟩, by simpa using hpath, by simp, fun state _ => ?_⟩
  rw [outcomeFrom_write, Script.run, FileTree.writeAll_cons]
  rcases state.files.writeWhole path content with ⟨_ | _, _⟩ <;> rfl

theorem IsScripted.mono (hwork : IsScripted kind allowed must (work : Work α))
    (hsub : ∀ path ∈ more, path ∈ must) : IsScripted kind allowed more work := by
  obtain ⟨script, hallowed, hmust, hfollows⟩ := hwork
  exact ⟨script, hallowed, fun a ha path hpath => hmust a ha path (hsub path hpath), hfollows⟩

section Kind

variable (hkind : ∀ files path content, kind files → allowed path →
  kind (files.writeWhole path content).2)

include hkind

theorem kind_writeAll {files : FileTree} (hfiles : kind files) {writes : List (Path × String)}
    (hwrites : ∀ write ∈ writes, allowed write.1) : kind (files.writeAll writes).2 := by
  induction writes generalizing files with
  | nil => exact hfiles
  | cons write rest ih =>
      obtain ⟨hfirst, hrest⟩ := List.forall_mem_cons.1 hwrites
      rw [FileTree.writeAll_cons]
      split
      · exact ih (hkind _ _ _ hfiles hfirst) hrest
      · exact hkind _ _ _ hfiles hfirst

theorem IsScripted.bind {work : Work α} {next : α → Work β}
    (hwork : IsScripted kind allowed must work)
    (hnext : ∀ a, IsScripted kind allowed more (next a)) :
    IsScripted kind allowed (must ++ more) (work >>= next) := by
  obtain ⟨first, hallowed, hmust, hfollows⟩ := hwork
  choose scripts hallowed' hmust' hfollows' using hnext
  refine ⟨first.andThen scripts, ?_, ?_, ?_⟩
  · intro write hwrite
    rw [Script.andThen] at hwrite
    split at hwrite
    · exact (List.mem_append.1 hwrite).elim (hallowed write) (hallowed' _ write)
    · exact hallowed write hwrite
  · intro b hb path hpath
    rw [Script.andThen] at hb ⊢
    split at hb
    · next a ha =>
        rw [List.map_append, List.mem_append]
        exact (List.mem_append.1 hpath).imp (hmust a ha path) (hmust' a b hb path)
    · simp at hb
  · intro state hstate
    have hfirst := hfollows state hstate
    have hlast := first.files_run state.files
    rw [outcomeFrom_bind, Script.run_andThen]
    rcases hrun : work.run.run state with ⟨error | a, after⟩
    · rw [outcomeFrom, hrun] at hfirst
      rw [← hfirst]
    · rw [outcomeFrom, hrun] at hfirst
      rw [← hfirst] at hlast ⊢
      refine hfollows' a after ?_
      change after.files = (state.files.writeAll first.writes).2 at hlast
      rw [hlast]
      exact kind_writeAll hkind hstate hallowed

theorem IsScripted.map {work : Work α} (hwork : IsScripted kind allowed must work) (f : α → β) :
    IsScripted kind allowed must (f <$> work) := by
  rw [map_eq_pure_bind]
  exact (hwork.bind hkind fun a => isScripted_pure (f a)).mono (by simp)

theorem IsScripted.mapM {γ : Type} {work : γ → Work α} {musts : γ → List Path} {xs : List γ}
    (hwork : ∀ x ∈ xs, IsScripted kind allowed (musts x) (work x)) :
    IsScripted kind allowed (xs.flatMap musts) (xs.mapM work) := by
  induction xs with
  | nil => exact isScripted_pure []
  | cons x rest ih =>
      obtain ⟨hfirst, hrest⟩ := List.forall_mem_cons.1 hwork
      rw [List.mapM_cons, List.flatMap_cons]
      refine (hfirst.bind hkind fun a => (ih hrest).bind hkind fun as =>
        isScripted_pure (a :: as)).mono ?_
      simp

end Kind

end Work

end DesignTokens
