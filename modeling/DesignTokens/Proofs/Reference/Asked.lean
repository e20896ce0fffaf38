import DesignTokens.Proofs.Resolution.Search

/-!
# The references that a run asks for

Replacing the references of a value puts them, one after the other, to whoever knows the
values of the tokens. Here such a run also keeps a list of what it asked for. The list
changes nothing in what the run does, and in the end it holds the references of the value
as reading it alone gives them.
-/

namespace DesignTokens

variable {m : Type → Type} [Monad m] {α β : Type}

/-- The question is noted behind the earlier ones and then put to `ask`. -/
def asking (ask : String → m α) (reference : String) : StateT (List String) m α := do
  modify (· ++ [reference])
  ask reference

/-- The run that keeps a list does what the plain run does, and what it asks for are the
references, in their order and as often as they occur. -/
def Asks (run : StateT (List String) m α) (plain : m α) (references : List String) : Prop :=
  ∀ asked, run.run asked = (fun result => (result, asked ++ references)) <$> plain

namespace Asks

variable [LawfulMonad m] {references more : List String}

theorem of_pure (result : α) : Asks (pure result : StateT (List String) m α) (pure result) [] := by
  intro asked
  simp

theorem of_lift (plain : m α) : Asks (liftM plain) plain [] := by
  intro asked
  simp

theorem of_asking (ask : String → m α) (reference : String) :
    Asks (asking ask reference) (ask reference) [reference] := by
  intro asked
  simp [asking]

theorem bind {run : StateT (List String) m α} {plain : m α}
    {next : α → StateT (List String) m β} {plainNext : α → m β}
    (hrun : Asks run plain references)
    (hnext : ∀ result, Asks (next result) (plainNext result) more) :
    Asks (run >>= next) (plain >>= plainNext) (references ++ more) := by
  intro asked
  rw [StateT.run_bind, hrun asked, bind_map_left, map_bind]
  apply bind_congr
  intro result
  rw [hnext result, List.append_assoc]

theorem map {run : StateT (List String) m α} {plain : m α} (hrun : Asks run plain references)
    (f : α → β) : Asks (f <$> run) (f <$> plain) references := by
  intro asked
  rw [StateT.run_map, hrun asked]
  simp

end Asks

namespace Value

variable [LawfulMonad m] (ask : String → m Value)

theorem asks_substitutePieces (pieces : List Piece) :
    Asks (substitutePieces (asking ask) pieces) (substitutePieces ask pieces)
      (pieces.filterMap Piece.target?) := by
  induction pieces with
  | nil => exact .of_pure []
  | cons piece rest ih =>
      cases piece with
      | plain chars =>
          rw [substitutePieces_plain, substitutePieces_plain]
          exact ih.map _
      | reference inner =>
          rw [substitutePieces_reference, substitutePieces_reference]
          apply (Asks.of_asking ask (Reference.target inner)).bind
          intro value
          exact ih.map _

theorem asks_substituteText (text : String) :
    Asks (substituteText (asking ask) text) (substituteText ask text)
      (Reference.targets text) := by
  rw [substituteText, substituteText]
  cases halias : Reference.alias? text with
  | some reference =>
      rw [Reference.targets_of_alias? halias]
      exact .of_asking ask reference
  | none =>
      have hpieces := asks_substitutePieces ask (Piece.ofText text)
      simpa [Reference.targets] using hpieces.map fun chars => Value.text (String.ofList chars)

mutual

/-- Replacing the references of a value asks for each of them once where it stands. -/
theorem asks_substitute (value : Value) :
    Asks (value.substitute (asking ask)) (value.substitute ask) value.references := by
  cases value with
  | text s => exact asks_substituteText ask s
  | list items => exact (asks_substituteItems items).map Value.list
  | object entries => exact (asks_substituteEntries entries).map Value.object
  | _ => exact .of_pure _
termination_by structural value

theorem asks_substituteItems (items : List Value) :
    Asks (substituteItems (asking ask) items) (substituteItems ask items)
      (itemReferences items) := by
  cases items with
  | nil => exact .of_pure []
  | cons item rest =>
      rw [substituteItems, substituteItems, itemReferences]
      apply (asks_substitute item).bind
      intro first
      have hothers := (asks_substituteItems rest).map (first :: ·)
      simpa using hothers
termination_by structural items

theorem asks_substituteEntries (entries : List (String × Value)) :
    Asks (substituteEntries (asking ask) entries) (substituteEntries ask entries)
      (entryReferences entries) := by
  cases entries with
  | nil => exact .of_pure []
  | cons entry rest =>
      rw [substituteEntries, substituteEntries, entryReferences]
      apply (asks_substitute entry.2).bind
      intro first
      have hothers := (asks_substituteEntries rest).map ((entry.1, first) :: ·)
      simpa using hothers
termination_by structural entries

end

/-! ## Values without references -/

theorem substitutePieces_of_targets {pieces : List Piece}
    (hplain : pieces.filterMap Piece.target? = []) :
    substitutePieces ask pieces = pure (pieces.flatMap Piece.source) := by
  induction pieces with
  | nil => rfl
  | cons piece rest ih =>
      cases piece with
      | plain chars =>
          rw [substitutePieces_plain, ih hplain, map_pure]
          rfl
      | reference inner => simp [Piece.target?] at hplain

theorem substituteText_of_targets {text : String} (hplain : Reference.targets text = []) :
    substituteText ask text = pure (.text text) := by
  have hnone : Reference.alias? text = none := by
    cases halias : Reference.alias? text with
    | none => rfl
    | some reference =>
        rw [Reference.targets_of_alias? halias] at hplain
        cases hplain
  rw [substituteText, hnone]
  dsimp only
  rw [substitutePieces_of_targets ask hplain, pure_bind, Piece.source_ofText,
    String.ofList_toList]

mutual

/-- A value without references is left as it is, and nobody is asked. -/
theorem substitute_of_references (value : Value) (hplain : value.references = []) :
    value.substitute ask = pure value := by
  cases value with
  | text s => rw [substitute, substituteText_of_targets ask hplain]
  | list items => rw [substitute, substituteItems_of_references items hplain, map_pure]
  | object entries => rw [substitute, substituteEntries_of_references entries hplain, map_pure]
  | _ => rfl
termination_by structural value

theorem substituteItems_of_references (items : List Value)
    (hplain : itemReferences items = []) : substituteItems ask items = pure items := by
  cases items with
  | nil => rfl
  | cons item rest =>
      obtain ⟨hfirst, hothers⟩ := List.append_eq_nil_iff.1 hplain
      rw [substituteItems, substitute_of_references item hfirst,
        substituteItems_of_references rest hothers, pure_bind, pure_bind]
termination_by structural items

theorem substituteEntries_of_references (entries : List (String × Value))
    (hplain : entryReferences entries = []) : substituteEntries ask entries = pure entries := by
  cases entries with
  | nil => rfl
  | cons entry rest =>
      obtain ⟨hfirst, hothers⟩ := List.append_eq_nil_iff.1 hplain
      rw [substituteEntries, substitute_of_references entry.2 hfirst,
        substituteEntries_of_references rest hothers, pure_bind, pure_bind]
termination_by structural entries

end

end Value

end DesignTokens
