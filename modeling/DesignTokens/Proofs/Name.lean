import Mathlib
import DesignTokens.Name
import DesignTokens.Proofs.Text

/-!
# The words of a path

No word reaches across a blank, so a path has the words of its steps, one step after the
other. Words hold neither blanks nor hyphens, so a name tells which words it is made of:
two paths have one name exactly when their steps have the same words in a row.
-/

namespace DesignTokens.Name

/-- The words of the steps of a path, one step after the other. -/
def wordsOf (path : TokenPath) : List (List Char) :=
  path.flatMap fun step => words step.toList

@[simp]
theorem wordsOf_nil : wordsOf [] = [] := rfl

@[simp]
theorem wordsOf_cons (step : String) (rest : TokenPath) :
    wordsOf (step :: rest) = words step.toList ++ wordsOf rest := rfl

@[simp]
theorem wordsOf_append (path rest : TokenPath) :
    wordsOf (path ++ rest) = wordsOf path ++ wordsOf rest :=
  List.flatMap_append

/-! ## Words on both sides of a blank -/

theorem splitBeforeCapital_append_blank (first second : List Char) :
    splitBeforeCapital (first ++ ' ' :: second) =
      splitBeforeCapital first ++ ' ' :: splitBeforeCapital second := by
  have hblank : splitBeforeCapital (' ' :: second) = ' ' :: splitBeforeCapital second := by
    cases second <;> simp [splitBeforeCapital]
  induction first with
  | nil => exact hblank
  | cons a first ih =>
      cases first with
      | nil => simp [splitBeforeCapital, hblank]
      | cons b rest =>
          simp only [List.cons_append] at ih ⊢
          by_cases hsplit : (a.isLower || a.isDigit) && b.isUpper
          · simp [splitBeforeCapital, hsplit, ih]
          · simp [splitBeforeCapital, hsplit, ih]

theorem splitAfterCapitals_append_blank (first second : List Char) :
    splitAfterCapitals (first ++ ' ' :: second) =
      splitAfterCapitals first ++ ' ' :: splitAfterCapitals second := by
  have hblank : splitAfterCapitals (' ' :: second) = ' ' :: splitAfterCapitals second := by
    match second with
    | [] | [_] => simp [splitAfterCapitals]
    | _ :: _ :: _ => simp [splitAfterCapitals]
  induction first with
  | nil => exact hblank
  | cons a first ih =>
      match first with
      | [] => cases second <;> simp_all [splitAfterCapitals]
      | [b] => simp_all [splitAfterCapitals]
      | b :: c :: rest =>
          simp only [List.cons_append] at ih ⊢
          by_cases hsplit : a.isUpper && b.isUpper && c.isLower
          · simp [splitAfterCapitals, hsplit, ih]
          · simp [splitAfterCapitals, hsplit, ih]

@[simp]
theorem words_nil : words [] = [] := rfl

theorem words_append_blank (first second : List Char) :
    words (first ++ ' ' :: second) = words first ++ words second := by
  have hgap : (!isWordChar ' ') = true := by decide
  rw [words, splitBeforeCapital_append_blank, splitAfterCapitals_append_blank,
    Text.stretches_append_gap hgap, List.filter_append, List.map_append, words, words]

theorem words_intercalate (path : TokenPath) :
    words (" ".intercalate path).toList = wordsOf path := by
  induction path with
  | nil => rfl
  | cons step rest ih =>
      cases rest with
      | nil => simp
      | cons second more =>
          have hjoin : (" ".intercalate (step :: second :: more)).toList =
              step.toList ++ ' ' :: (" ".intercalate (second :: more)).toList := by
            simp [String.toList_intercalate]
          rw [hjoin, words_append_blank, ih, ← wordsOf_cons]

/-! ## Names made of words -/

theorem toLower_ne_hyphen {c : Char} (hc : isWordChar c = true) : c.toLower ≠ '-' := by
  intro hhyphen
  by_cases hupper : c.isUpper
  · have hletter : c.toLower.isAlpha := by
      rw [Char.isAlpha_toLower_eq_isAlpha, Char.isAlpha, hupper, Bool.true_or]
    rw [hhyphen] at hletter
    exact absurd hletter (by decide)
  · rw [Char.toLower_eq_of_not_isUpper hupper] at hhyphen
    subst hhyphen
    exact absurd hc (by decide)

theorem ne_nil_of_mem_words {chars word : List Char} (hword : word ∈ words chars) :
    word ≠ [] := by
  obtain ⟨stretch, hstretch, rfl⟩ := List.mem_map.1 hword
  simpa using (List.mem_filter.1 hstretch).2

theorem hyphen_not_mem_of_mem_words {chars word : List Char} (hword : word ∈ words chars) :
    '-' ∉ word := by
  obtain ⟨stretch, hstretch, rfl⟩ := List.mem_map.1 hword
  intro hhyphen
  obtain ⟨c, hc, hlower⟩ := List.mem_map.1 hhyphen
  have hchar := Text.isGap_of_mem_stretches (List.mem_filter.1 hstretch).1 c hc
  exact toLower_ne_hyphen (by simpa using hchar) hlower

/-- Words that are joined by hyphens are found again between the hyphens. -/
theorem filter_stretches_intercalate {found : List (List Char)} (hne : ∀ word ∈ found, word ≠ [])
    (hhyphen : ∀ word ∈ found, '-' ∉ word) :
    (Text.stretches (· == '-') (['-'].intercalate found)).filter (fun word => !word.isEmpty) =
      found := by
  by_cases hempty : found = []
  · subst hempty
    rfl
  · rw [Text.stretches_intercalate_eq_self hempty hhyphen, List.filter_eq_self]
    simpa using hne

theorem kebab_inj {text other : String} :
    kebab text = kebab other ↔ words text.toList = words other.toList := by
  constructor
  · intro hsame
    rw [kebab, kebab, String.ofList_inj] at hsame
    rw [← filter_stretches_intercalate (fun _ => ne_nil_of_mem_words)
      (fun _ => hyphen_not_mem_of_mem_words), hsame,
      filter_stretches_intercalate (fun _ => ne_nil_of_mem_words)
      (fun _ => hyphen_not_mem_of_mem_words)]
  · intro hsame
    rw [kebab, kebab, hsame]

theorem kebab_eq_empty_iff {text : String} : kebab text = "" ↔ words text.toList = [] := by
  have hempty : kebab "" = "" := rfl
  rw [← hempty, kebab_inj, String.toList_empty, words_nil]

/-! ## Names of paths -/

/-- A name has the words of its lead and then those of its path. -/
theorem ofPath_eq_kebab (path : TokenPath) (lead : Option String) : ∃ text,
    ofPath path lead = kebab text ∧
      words text.toList = wordsOf lead.toList ++ wordsOf path := by
  cases lead with
  | none => exact ⟨_, rfl, words_intercalate path⟩
  | some first =>
      by_cases hempty : first = ""
      · subst hempty
        exact ⟨_, rfl, words_intercalate path⟩
      · refine ⟨" ".intercalate (first :: path), by simp [ofPath, hempty], ?_⟩
        rw [words_intercalate, Option.toList_some, wordsOf_cons, wordsOf_cons, wordsOf_nil,
          List.append_nil]

/-- Two paths have one name exactly when they have the same words. -/
theorem ofPath_inj {path other : TokenPath} (lead : Option String) :
    ofPath path lead = ofPath other lead ↔ wordsOf path = wordsOf other := by
  obtain ⟨text, htext, hwords⟩ := ofPath_eq_kebab path lead
  obtain ⟨otherText, hotherText, hotherWords⟩ := ofPath_eq_kebab other lead
  rw [htext, hotherText, kebab_inj, hwords, hotherWords, List.append_cancel_left_eq]

/-- Leaving out a step of a path leaves its name as it is exactly when the path has no such
step or the step has no words. -/
theorem ofPath_erase_eq_iff {path : TokenPath} {step : String} {lead : Option String} :
    ofPath (path.erase step) lead = ofPath path lead ↔ step ∉ path ∨ kebab step = "" := by
  rw [ofPath_inj, kebab_eq_empty_iff]
  by_cases hstep : step ∈ path
  · obtain ⟨before, after, -, hpath, herase⟩ := List.exists_erase_eq hstep
    rw [herase, hpath]
    simp
  · simp [List.erase_of_not_mem hstep, hstep]

end DesignTokens.Name
