import Mathlib.Data.String.Basic
import DesignTokens.Text.Stretch

/-!
# Parts, lines and the order of texts

A text holds another one as a part or at its start, is cut into stretches and lines, and
has its place among other texts. Joining stretches and cutting them again are inverse to
one another, and sorting forgets the order in which texts were given.
-/

namespace DesignTokens.Text

/-! ## Parts -/

theorem occurs_iff {part chars : List Char} : occurs part chars = true ↔ part <:+: chars := by
  induction chars with
  | nil => simp [occurs]
  | cons c rest ih =>
      rw [occurs, Bool.or_eq_true, ih, List.isPrefixOf_iff_prefix, List.infix_cons_iff]

theorem contains_iff {text part : String} :
    contains text part = true ↔ ∃ before after, text = before ++ part ++ after := by
  rw [contains, occurs_iff]
  constructor
  · rintro ⟨before, after, hsplit⟩
    exact ⟨.ofList before, .ofList after, by simp [← String.toList_inj, ← hsplit]⟩
  · rintro ⟨before, after, rfl⟩
    exact ⟨before.toList, after.toList, by simp⟩

theorem isPrefixOf_iff {text start : String} :
    start.isPrefixOf text = true ↔ ∃ rest, text = start ++ rest := by
  rw [String.isPrefixOf, String.startsWith_string_iff]
  constructor
  · rintro ⟨rest, hsplit⟩
    exact ⟨.ofList rest, by simp [← String.toList_inj, ← hsplit]⟩
  · rintro ⟨rest, rfl⟩
    exact ⟨rest.toList, by simp⟩

/-! ## Stretches -/

/-- Text is cut at a gap and, on both sides of it, where each side is. -/
theorem stretches_append_gap {isGap : Char → Bool} {gap : Char} (hgap : isGap gap = true)
    (chars rest : List Char) :
    stretches isGap (chars ++ gap :: rest) = stretches isGap chars ++ stretches isGap rest := by
  induction chars with
  | nil => simp [stretches, hgap]
  | cons c chars ih =>
      by_cases hc : isGap c
      · simp [stretches, hc, ih]
      · cases hchars : stretches isGap chars with
        | nil => exact absurd hchars (stretches_ne_nil _ chars)
        | cons first others => simp [stretches, hc, ih, hchars]

theorem stretches_append_separator (separator : Char) (chars rest : List Char) :
    stretches (· == separator) (chars ++ separator :: rest) =
      stretches (· == separator) chars ++ stretches (· == separator) rest :=
  stretches_append_gap (by simp) chars rest

/-- No gap is left in a stretch. -/
theorem isGap_of_mem_stretches {isGap : Char → Bool} {chars stretch : List Char}
    (hstretch : stretch ∈ stretches isGap chars) : ∀ c ∈ stretch, isGap c = false := by
  induction chars generalizing stretch with
  | nil => simp_all [stretches]
  | cons c chars ih =>
      rw [stretches] at hstretch
      split at hstretch
      · rcases List.mem_cons.1 hstretch with rfl | hrest
        · simp
        · exact ih hrest
      · next hc =>
          split at hstretch
          · simp_all
          · next first others hchars =>
              rw [hchars] at ih
              rcases List.mem_cons.1 hstretch with rfl | hothers
              · simpa [hc] using ih List.mem_cons_self
              · exact ih (List.mem_cons_of_mem _ hothers)

theorem stretches_eq_singleton {separator : Char} {chars : List Char} (hchars : separator ∉ chars) :
    stretches (· == separator) chars = [chars] := by
  induction chars with
  | nil => rfl
  | cons c chars ih =>
      simp only [List.mem_cons, not_or] at hchars
      simp [stretches, Ne.symm hchars.1, ih hchars.2]

/-- What follows without a separator belongs to the last stretch. -/
theorem exists_stretches_append {separator : Char} {suffix : List Char}
    (hsuffix : separator ∉ suffix) (chars : List Char) :
    ∃ init last, stretches (· == separator) chars = init ++ [last] ∧
      stretches (· == separator) (chars ++ suffix) = init ++ [last ++ suffix] := by
  induction chars with
  | nil => exact ⟨[], [], rfl, stretches_eq_singleton hsuffix⟩
  | cons c rest ih =>
      obtain ⟨init, last, hshort, hlong⟩ := ih
      by_cases hgap : c = separator
      · exact ⟨[] :: init, last, by simp [stretches, hgap, hshort],
          by simp [stretches, hgap, hlong]⟩
      · cases init with
        | nil =>
            exact ⟨[], c :: last, by simp [stretches, hgap, hshort],
              by simp [stretches, hgap, hlong]⟩
        | cons first others =>
            exact ⟨(c :: first) :: others, last, by simp [stretches, hgap, hshort],
              by simp [stretches, hgap, hlong]⟩

/-- Parts that are joined by the separator are cut between them and where each of them is. -/
theorem stretches_intercalate {separator : Char} {parts : List (List Char)} (hne : parts ≠ []) :
    stretches (· == separator) ([separator].intercalate parts) =
      parts.flatMap (stretches (· == separator)) := by
  induction parts with
  | nil => exact absurd rfl hne
  | cons part rest ih =>
      cases rest with
      | nil => simp
      | cons second more =>
          have hsplit : [separator].intercalate (part :: second :: more) =
              part ++ separator :: [separator].intercalate (second :: more) := by
            simp [List.intercalate_cons_cons]
          rw [hsplit, stretches_append_separator, ih (by simp), ← List.flatMap_cons]

/-- Cutting at a separator undoes joining with it. -/
theorem stretches_intercalate_eq_self {separator : Char} {parts : List (List Char)}
    (hne : parts ≠ []) (hparts : ∀ part ∈ parts, separator ∉ part) :
    stretches (· == separator) ([separator].intercalate parts) = parts := by
  calc
    stretches (· == separator) ([separator].intercalate parts) =
        parts.flatMap (stretches (· == separator)) := stretches_intercalate hne
    _ = parts.flatMap fun part => [part] := by
        rw [List.flatMap_def, List.flatMap_def]
        congr 1
        exact List.map_congr_left fun part hpart => stretches_eq_singleton (hparts part hpart)
    _ = parts := List.flatMap_singleton' parts

/-! ## Lines -/

/-- The lines of a text, without their ends. -/
def lines (text : String) : List (List Char) :=
  stretches (· == '\n') text.toList

theorem toList_newline : "\n".toList = ['\n'] := by decide

theorem lines_eq_singleton {text : String} (htext : '\n' ∉ text.toList) :
    lines text = [text.toList] :=
  stretches_eq_singleton htext

theorem lines_append_newline (text rest : String) :
    lines (text ++ "\n" ++ rest) = lines text ++ lines rest := by
  rw [lines, String.toList_append, String.toList_append, toList_newline, List.append_assoc,
    List.singleton_append, stretches_append_separator, lines, lines]

/-- Between two line ends is an empty line. -/
theorem lines_append_blank (text rest : String) :
    lines (text ++ "\n\n" ++ rest) = lines text ++ [] :: lines rest := by
  have hblank : "\n\n".toList = ['\n', '\n'] := by decide
  rw [lines, String.toList_append, String.toList_append, hblank, List.append_assoc,
    List.cons_append, stretches_append_separator, List.singleton_append,
    ← List.nil_append ('\n' :: _), stretches_append_separator, lines, lines]
  rfl

theorem lines_intercalate {texts : List String} (hne : texts ≠ []) :
    lines ("\n".intercalate texts) = texts.flatMap lines := by
  rw [lines, String.toList_intercalate, toList_newline, stretches_intercalate (by simpa using hne),
    List.flatMap_map]
  rfl

/-! ## Order -/

variable {texts others : List String}

theorem pairwise_le_mergeSort (texts : List String) :
    (texts.mergeSort fun a b => decide (a ≤ b)).Pairwise (· ≤ ·) := by
  have htrans (a b c : String) (hab : decide (a ≤ b) = true) (hbc : decide (b ≤ c) = true) :
      decide (a ≤ c) = true := by
    rw [decide_eq_true_iff] at *
    exact hab.trans hbc
  have htotal (a b : String) : (decide (a ≤ b) || decide (b ≤ a)) = true := by
    simpa using le_total a b
  apply (List.pairwise_mergeSort htrans htotal texts).imp
  intro a b hab
  exact of_decide_eq_true hab

theorem pairwise_lt_mergeSort (hnodup : texts.Nodup) :
    (texts.mergeSort fun a b => decide (a ≤ b)).Pairwise (· < ·) := by
  have hdistinct : (texts.mergeSort fun a b => decide (a ≤ b)).Pairwise (· ≠ ·) :=
    (List.mergeSort_perm _ _).nodup_iff.2 hnodup
  apply ((pairwise_le_mergeSort texts).and hdistinct).imp
  rintro a b ⟨hle, hne⟩
  exact lt_of_le_of_ne hle hne

/-- The order in which texts were given is lost when they are sorted. -/
theorem mergeSort_eq_of_perm (hperm : texts.Perm others) :
    (texts.mergeSort fun a b => decide (a ≤ b)) = others.mergeSort fun a b => decide (a ≤ b) := by
  apply List.Perm.eq_of_pairwise _ (pairwise_le_mergeSort texts) (pairwise_le_mergeSort others)
  · exact (List.mergeSort_perm _ _).trans (hperm.trans (List.mergeSort_perm _ _).symm)
  · intro a b _ _ hab hba
    exact le_antisymm hab hba

end DesignTokens.Text
