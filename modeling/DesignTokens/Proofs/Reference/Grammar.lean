import Mathlib.Data.List.Basic
import DesignTokens.Reference

/-!
# The grammar of references

What a reference is can be said without a scanner: an opening brace, at least one
character that is no brace, and a closing brace. This file shows that the scanner
finds exactly these, from left to right, and that a text is an alias exactly if it is
one of them between blanks.
-/

namespace DesignTokens.Reference

/-- What may stand between the braces of a reference. -/
structure IsInner (inner : List Char) : Prop where
  ne_nil : inner ≠ []
  no_open : '\x7b' ∉ inner
  no_close : '\x7d' ∉ inner

/-- Characters held back since an opening brace, last first, make an inner text. -/
theorem isInner_reverse {held : List Char} (hne : held ≠ [])
    (hheld : '\x7b' ∉ held ∧ '\x7d' ∉ held) : IsInner held.reverse where
  ne_nil := by simpa using hne
  no_open := by simpa using hheld.1
  no_close := by simpa using hheld.2

/-- A reference stands at the very start of the text. -/
def Begins (chars : List Char) : Prop :=
  ∃ inner rest, IsInner inner ∧ chars = '\x7b' :: inner ++ '\x7d' :: rest

/-- The dotted path between the braces, without the blanks around it. -/
def target (inner : List Char) : String :=
  String.ofList (Text.trimWhere Text.isBlank inner)

/-- Up to blanks around it the text is one reference and nothing else. -/
def IsAlias (text reference : String) : Prop :=
  ∃ inner, IsInner inner ∧
    Text.trimWhere Text.isBlank text.toList = '\x7b' :: inner ++ ['\x7d'] ∧
    reference = target inner

/-- Two texts that agree up to their first brace agree in that brace. -/
theorem append_brace_inj {left right : List Char} {a b : Char} {leftRest rightRest : List Char}
    (hleft : '\x7b' ∉ left ∧ '\x7d' ∉ left) (hright : '\x7b' ∉ right ∧ '\x7d' ∉ right)
    (ha : a = '\x7b' ∨ a = '\x7d') (hb : b = '\x7b' ∨ b = '\x7d')
    (heq : left ++ a :: leftRest = right ++ b :: rightRest) :
    left = right ∧ a = b ∧ leftRest = rightRest := by
  induction left generalizing right with
  | nil =>
      cases right with
      | nil => simpa using heq
      | cons c right =>
          obtain ⟨rfl, -⟩ : a = c ∧ _ := by simpa using heq
          rcases ha with rfl | rfl <;> simp at hright
  | cons c left ih =>
      cases right with
      | nil =>
          obtain ⟨rfl, -⟩ : c = b ∧ _ := by simpa using heq
          rcases hb with rfl | rfl <;> simp at hleft
      | cons d right =>
          obtain ⟨rfl, htail⟩ : c = d ∧ left ++ a :: leftRest = right ++ b :: rightRest := by
            simpa using heq
          simp only [List.mem_cons, not_or] at hleft hright
          obtain ⟨rfl, hrest⟩ := ih ⟨hleft.1.2, hleft.2.2⟩ ⟨hright.1.2, hright.2.2⟩ htail
          exact ⟨rfl, hrest⟩

theorem not_begins_cons {c : Char} (hc : c ≠ '\x7b') (rest : List Char) :
    ¬ Begins (c :: rest) := by
  rintro ⟨inner, others, -, heq⟩
  exact hc (by simpa using congrArg List.head? heq)

/-- An opening brace that meets no closing one begins no reference. -/
theorem not_begins_of_no_close {chars : List Char} (hclose : '\x7d' ∉ chars) :
    ¬ Begins chars := by
  rintro ⟨inner, rest, -, rfl⟩
  simp at hclose

/-- An opening brace that meets another one first begins no reference. -/
theorem not_begins_reopened {plain : List Char} (hplain : '\x7b' ∉ plain ∧ '\x7d' ∉ plain)
    (rest : List Char) : ¬ Begins ('\x7b' :: plain ++ '\x7b' :: rest) := by
  rintro ⟨inner, others, hinner, heq⟩
  have htail : plain ++ '\x7b' :: rest = inner ++ '\x7d' :: others := by simpa using heq
  have hbrace := append_brace_inj hplain ⟨hinner.no_open, hinner.no_close⟩ (.inl rfl) (.inr rfl)
    htail
  exact absurd hbrace.2.1 (by decide)

theorem not_begins_empty (rest : List Char) : ¬ Begins ('\x7b' :: '\x7d' :: rest) := by
  rintro ⟨inner, others, hinner, heq⟩
  have htail : [] ++ '\x7d' :: rest = inner ++ '\x7d' :: others := by simpa using heq
  have hbrace := append_brace_inj (by simp) ⟨hinner.no_open, hinner.no_close⟩ (.inr rfl) (.inr rfl)
    htail
  exact hinner.ne_nil hbrace.1.symm

end DesignTokens.Reference

namespace DesignTokens.Piece

open Reference

/-- Every reference that the scanner finds obeys the grammar, if no brace is held back. -/
theorem isInner_of_mem_scan (pending : Option (List Char)) {chars inner : List Char}
    (hpending : ∀ held ∈ pending, '\x7b' ∉ held ∧ '\x7d' ∉ held)
    (hmem : .reference inner ∈ scan pending chars) : IsInner inner := by
  induction chars generalizing pending with
  | nil => cases pending <;> simp [scan] at hmem
  | cons c rest ih =>
      cases pending with
      | none =>
          by_cases hopen : c = '\x7b'
          · exact ih (some []) (by simp) (by simpa [scan, hopen] using hmem)
          · exact ih none (by simp) (by simpa [scan, hopen] using hmem)
      | some held =>
          obtain ⟨hnoOpen, hnoClose⟩ := hpending held rfl
          by_cases hopen : c = '\x7b'
          · exact ih (some []) (by simp) (by simpa [scan, hopen] using hmem)
          by_cases hclose : c = '\x7d'
          · cases held with
            | nil => exact ih none (by simp) (by simpa [scan, hclose] using hmem)
            | cons h t =>
                rw [scan, if_neg hopen, if_pos hclose] at hmem
                rcases List.mem_cons.1 hmem with heq | hmem
                · have hsame : inner = (h :: t).reverse := by simpa using heq
                  subst hsame
                  exact isInner_reverse (by simp) ⟨hnoOpen, hnoClose⟩
                · exact ih none (by simp) hmem
          · have hheld : ∀ inner ∈ some (c :: held), '\x7b' ∉ inner ∧ '\x7d' ∉ inner := by
              rintro _ ⟨⟩
              simp [Ne.symm hopen, Ne.symm hclose, hnoOpen, hnoClose]
            exact ih (some (c :: held)) hheld (by simpa [scan, hopen, hclose] using hmem)

/-- The scanner reads on to the closing brace of a reference. -/
theorem scan_reference {inner : List Char} (hinner : '\x7b' ∉ inner ∧ '\x7d' ∉ inner)
    (held rest : List Char) (hne : held.reverse ++ inner ≠ []) :
    scan (some held) (inner ++ '\x7d' :: rest) =
      .reference (held.reverse ++ inner) :: scan none rest := by
  induction inner generalizing held with
  | nil =>
      have hheld : held ≠ [] := by simpa using hne
      simp [scan, hheld]
  | cons c inner ih =>
      simp only [List.mem_cons, not_or] at hinner
      have hnext := ih ⟨hinner.1.2, hinner.2.2⟩ (c :: held) (by simp)
      simpa [scan, Ne.symm hinner.1.1, Ne.symm hinner.2.1] using hnext

/-- A reference at the start of a text is the first piece of the text. -/
theorem scan_begins {inner : List Char} (hinner : IsInner inner) (rest : List Char) :
    scan none ('\x7b' :: inner ++ '\x7d' :: rest) = .reference inner :: scan none rest := by
  have hread := scan_reference ⟨hinner.no_open, hinner.no_close⟩ [] rest
    (by simpa using hinner.ne_nil)
  simpa [scan] using hread

/-- Text before the first opening brace is cut into single characters. -/
theorem scan_append_plain {plain : List Char} (hplain : '\x7b' ∉ plain) (rest : List Char) :
    scan none (plain ++ rest) = plain.map (fun c => .plain [c]) ++ scan none rest := by
  induction plain with
  | nil => rfl
  | cons c plain ih =>
      simp only [List.mem_cons, not_or] at hplain
      simp [scan, Ne.symm hplain.1, ih hplain.2]

/-- A brace that begins no reference, with the characters held since, leads to the same
references as the text behind them. -/
theorem targets_scan_pending {held : List Char} (hheld : '\x7b' ∉ held ∧ '\x7d' ∉ held)
    {rest : List Char} (hbegins : ¬ Begins ('\x7b' :: held.reverse ++ rest)) :
    (scan (some held) rest).filterMap target? = (scan none rest).filterMap target? := by
  induction rest generalizing held with
  | nil => simp [scan, target?]
  | cons c rest ih =>
      by_cases hopen : c = '\x7b'
      · simp [scan, hopen, target?, List.filterMap_cons]
      by_cases hclose : c = '\x7d'
      · subst hclose
        cases held with
        | nil => simp [scan, target?, List.filterMap_cons]
        | cons h t =>
            exact absurd ⟨_, rest, isInner_reverse (by simp) hheld, rfl⟩ hbegins
      · have hnext : '\x7b' ∉ c :: held ∧ '\x7d' ∉ c :: held := by
          simp [Ne.symm hopen, Ne.symm hclose, hheld]
        have hlater := ih hnext (by simpa using hbegins)
        simpa [scan, hopen, hclose, target?, List.filterMap_cons] using hlater

/-- A character at which no reference begins can be left out without losing one. -/
theorem targets_scan_of_not_begins {c : Char} {rest : List Char} (hbegins : ¬ Begins (c :: rest)) :
    (scan none (c :: rest)).filterMap target? = (scan none rest).filterMap target? := by
  by_cases hopen : c = '\x7b'
  · subst hopen
    have hheld : '\x7b' ∉ ([] : List Char) ∧ '\x7d' ∉ ([] : List Char) := by simp
    simpa [scan] using targets_scan_pending hheld hbegins
  · simp [scan, hopen, target?, List.filterMap_cons]

end DesignTokens.Piece

namespace DesignTokens.Reference

/-- Reading a text as an alias follows the grammar. -/
theorem alias?_eq_some_iff {text reference : String} :
    alias? text = some reference ↔ IsAlias text reference := by
  constructor
  · intro halias
    unfold alias? at halias
    split at halias
    case h_1 inner hpieces =>
      have hsource := Piece.source_ofText (Text.trim text)
      rw [hpieces] at hsource
      refine ⟨inner, ?_, ?_, ?_⟩
      · have hmem : .reference inner ∈ Piece.ofText (Text.trim text) := by simp [hpieces]
        exact Piece.isInner_of_mem_scan none (by simp) hmem
      · simpa [Piece.source, Text.trim] using hsource.symm
      · simpa [Piece.target?, target] using halias.symm
    case h_2 => simp at halias
  · rintro ⟨inner, hinner, htext, rfl⟩
    have hpieces : Piece.ofText (Text.trim text) = [.reference inner] := by
      simp only [Piece.ofText, Text.trim, String.toList_ofList, htext]
      simpa [Piece.scan] using Piece.scan_begins hinner []
    simp [alias?, hpieces, Piece.target?, target]

theorem alias?_eq_none_iff {text : String} :
    alias? text = none ↔ ∀ reference, ¬ IsAlias text reference := by
  simp only [← alias?_eq_some_iff]
  exact Option.eq_none_iff_forall_ne_some

/-- An alias holds one reference, the one it stands for. -/
theorem targets_of_alias? {text reference : String} (halias : alias? text = some reference) :
    targets text = [reference] := by
  obtain ⟨inner, hinner, htrim, rfl⟩ := alias?_eq_some_iff.1 halias
  obtain ⟨before, after, htext, hbefore, hafter⟩ :=
    Text.exists_eq_append_trimWhere Text.isBlank text.toList
  have hbrace : Text.isBlank '\x7b' = false := by decide
  have hnoBefore : '\x7b' ∉ before := fun hmem => by simp [hbefore _ hmem] at hbrace
  have hnoAfter : '\x7b' ∉ after := fun hmem => by simp [hafter _ hmem] at hbrace
  have hsplit : text.toList = before ++ ('\x7b' :: inner ++ '\x7d' :: (after ++ [])) := by
    rw [htext, htrim]
    simp
  rw [targets, Piece.ofText, hsplit, Piece.scan_append_plain hnoBefore, Piece.scan_begins hinner,
    Piece.scan_append_plain hnoAfter]
  simp [Piece.target?, Piece.scan, target, List.filterMap_map, Function.comp_def]

end DesignTokens.Reference
