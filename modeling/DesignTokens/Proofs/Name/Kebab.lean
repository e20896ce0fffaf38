import DesignTokens.Proofs.Name

/-!
# Texts that are names already

A name is empty or consists of words joined by single hyphens, each word of small letters and
digits. Every text gets such a name, whatever characters it has. A name is found to have just
the words of which it was made: there is no capital at which it could be cut further, and a
hyphen is the only character that is no part of a word. So naming changes a text exactly if the
text is not a name yet, and naming twice is naming once.
-/

namespace DesignTokens.Name

/-- Small letters and digits. -/
def isNameChar (c : Char) : Bool :=
  c.isLower || c.isDigit

/-- One small letter or digit at least, and nothing else. -/
def IsNameWord (word : List Char) : Prop :=
  word ≠ [] ∧ ∀ c ∈ word, isNameChar c = true

/-- Words of small letters and digits, joined by single hyphens; no words make the empty text. -/
def IsKebab (text : String) : Prop :=
  ∃ found : List (List Char), (∀ word ∈ found, IsNameWord word) ∧
    text = String.ofList (['-'].intercalate found)

/-! ## Characters -/

variable {c : Char} {chars : List Char}

theorem isWordChar_of_isNameChar (hc : isNameChar c = true) : isWordChar c = true := by
  rw [isNameChar, Bool.or_eq_true] at hc
  rw [isWordChar, Bool.or_eq_true, Bool.or_eq_true]
  rcases hc with hlower | hdigit
  · exact .inl (.inr hlower)
  · exact .inr hdigit

theorem isNameChar_toLower (hc : isWordChar c = true) : isNameChar c.toLower = true := by
  rw [isNameChar, Char.isLower_toLower_eq_isAlpha, Bool.or_eq_true]
  cases hletter : c.isAlpha with
  | true => exact .inl rfl
  | false =>
      rw [Char.isAlpha, Bool.or_eq_false_iff] at hletter
      rw [Char.toLower_eq_of_not_isUpper (by simp [hletter.1])]
      exact .inr (by simpa [isWordChar, hletter.1, hletter.2] using hc)

theorem isUpper_eq_false (hc : isNameChar c = true) : c.isUpper = false := by
  rw [isNameChar, Bool.or_eq_true] at hc
  rcases hc with hlower | hdigit
  · exact Bool.eq_false_iff.2 (Char.not_isUpper_of_isLower hlower)
  · simp [Char.isDigit, Char.isUpper, UInt32.le_iff_toNat_le] at hdigit ⊢
    omega

theorem toLower_eq_self (hc : isNameChar c = true) : c.toLower = c :=
  Char.toLower_eq_of_not_isUpper (by simp [isUpper_eq_false hc])

theorem hyphen_not_mem_of_isNameWord {word : List Char} (hword : IsNameWord word) :
    '-' ∉ word := by
  intro hhyphen
  exact absurd (hword.2 '-' hhyphen) (by decide)

/-! ## Text without capitals -/

theorem splitBeforeCapital_eq_self (hchars : ∀ c ∈ chars, c.isUpper = false) :
    splitBeforeCapital chars = chars := by
  induction chars with
  | nil => rfl
  | cons a rest ih =>
      rw [List.forall_mem_cons] at hchars
      cases rest with
      | nil => rfl
      | cons b rest =>
          have hb := hchars.2 b List.mem_cons_self
          rw [splitBeforeCapital, hb, Bool.and_false, if_neg Bool.false_ne_true, ih hchars.2]

theorem splitAfterCapitals_eq_self (hchars : ∀ c ∈ chars, c.isUpper = false) :
    splitAfterCapitals chars = chars := by
  induction chars with
  | nil => rfl
  | cons a rest ih =>
      rw [List.forall_mem_cons] at hchars
      match rest with
      | [] | [_] => rfl
      | b :: c :: rest =>
          rw [splitAfterCapitals, hchars.1, Bool.false_and, Bool.false_and,
            if_neg Bool.false_ne_true, ih hchars.2]

/-- Text is cut alike by two kinds of gaps that agree on its characters. -/
theorem stretches_congr {isGap isOther : Char → Bool}
    (hsame : ∀ c ∈ chars, isGap c = isOther c) :
    Text.stretches isGap chars = Text.stretches isOther chars := by
  induction chars with
  | nil => rfl
  | cons c rest ih =>
      rw [List.forall_mem_cons] at hsame
      rw [Text.stretches, Text.stretches, hsame.1, ih hsame.2]

/-! ## Names -/

variable {found : List (List Char)}

theorem eq_hyphen_or_isNameChar (hfound : ∀ word ∈ found, IsNameWord word)
    (hc : c ∈ ['-'].intercalate found) : c = '-' ∨ isNameChar c = true := by
  induction found with
  | nil => cases hc
  | cons word rest ih =>
      rw [List.forall_mem_cons] at hfound
      cases rest with
      | nil => exact .inr (hfound.1.2 c (by simpa using hc))
      | cons second more =>
          rw [List.intercalate_cons_cons, List.append_assoc, List.mem_append, List.mem_append,
            List.mem_singleton] at hc
          rcases hc with hword | hhyphen | hmore
          · exact .inr (hfound.1.2 c hword)
          · exact .inl hhyphen
          · exact ih hfound.2 hmore

/-- The words of a name are those of which it was made. -/
theorem words_intercalate_hyphen (hfound : ∀ word ∈ found, IsNameWord word) :
    words (['-'].intercalate found) = found := by
  have hupper : ∀ c ∈ ['-'].intercalate found, c.isUpper = false := by
    intro c hc
    rcases eq_hyphen_or_isNameChar hfound hc with rfl | hname
    · rfl
    · exact isUpper_eq_false hname
  have hgap : ∀ c ∈ ['-'].intercalate found, (!isWordChar c) = (c == '-') := by
    intro c hc
    rcases eq_hyphen_or_isNameChar hfound hc with rfl | hname
    · rfl
    · rw [isWordChar_of_isNameChar hname, Bool.not_true, eq_comm, beq_eq_false_iff_ne]
      rintro rfl
      exact absurd hname (by decide)
  have hlower : ∀ word ∈ found, word.map Char.toLower = word := by
    intro word hword
    refine (List.map_congr_left fun c hc => ?_).trans (List.map_id word)
    exact toLower_eq_self ((hfound word hword).2 c hc)
  rw [words, splitBeforeCapital_eq_self hupper, splitAfterCapitals_eq_self hupper,
    stretches_congr hgap, filter_stretches_intercalate (fun word hword => (hfound word hword).1)
      fun word hword => hyphen_not_mem_of_isNameWord (hfound word hword)]
  exact (List.map_congr_left hlower).trans (List.map_id found)

theorem isNameWord_of_mem_words {word : List Char} (hword : word ∈ words chars) :
    IsNameWord word := by
  refine ⟨ne_nil_of_mem_words hword, ?_⟩
  obtain ⟨stretch, hstretch, rfl⟩ := List.mem_map.1 hword
  intro c hc
  obtain ⟨original, horiginal, rfl⟩ := List.mem_map.1 hc
  have hchar := Text.isGap_of_mem_stretches (List.mem_filter.1 hstretch).1 original horiginal
  exact isNameChar_toLower (by simpa using hchar)

theorem isKebab_kebab (text : String) : IsKebab (kebab text) :=
  ⟨words text.toList, fun _ => isNameWord_of_mem_words, rfl⟩

theorem kebab_of_isKebab {text : String} (htext : IsKebab text) : kebab text = text := by
  obtain ⟨found, hfound, rfl⟩ := htext
  rw [kebab, String.toList_ofList, words_intercalate_hyphen hfound]

/-- Naming takes every text to a name and leaves the names, and no other texts, as they are. -/
theorem kebab_projects (text : String) :
    IsKebab (kebab text) ∧ (kebab text = text ↔ IsKebab text) ∧
      kebab (kebab text) = kebab text := by
  refine ⟨isKebab_kebab text, ⟨fun hfixed => ?_, kebab_of_isKebab⟩,
    kebab_of_isKebab (isKebab_kebab text)⟩
  rw [← hfixed]
  exact isKebab_kebab text

example : kebab "déjàVu--2X_y" = "d-j-vu-2-x-y" := by decide +kernel

end DesignTokens.Name
