/-!
# Cutting text at separators

A dotted reference is cut at its dots, a mode name at its slashes and a name at
everything that is neither letter nor digit. Joining the stretches with the
separator gives the text back.
-/

namespace DesignTokens.Text

/-- The stretches of text between the characters that satisfy `isGap`; there is
one more stretch than there are gaps, and stretches may be empty. -/
def stretches (isGap : Char → Bool) : List Char → List (List Char)
  | [] => [[]]
  | c :: rest =>
    if isGap c then
      [] :: stretches isGap rest
    else
      match stretches isGap rest with
      | [] => [[c]]
      | first :: others => (c :: first) :: others

/-- The fields of `text` between the occurrences of `separator`. -/
def fields (separator : Char) (text : String) : List String :=
  (stretches (· == separator) text.toList).map String.ofList

/-- Text with every line end (`\r\n`, `\r` or `\n`) written as `\n`. -/
def unifyNewlines : List Char → List Char
  | '\r' :: '\n' :: rest => '\n' :: unifyNewlines rest
  | '\r' :: rest => '\n' :: unifyNewlines rest
  | c :: rest => c :: unifyNewlines rest
  | [] => []

/-- Text with every occurrence of `old` replaced by `new`, from left to right. -/
def replaceAll (old new : List Char) (text : List Char) : List Char :=
  go text.length text
where
  go : Nat → List Char → List Char
    | 0, rest => rest
    | _, [] => []
    | budget + 1, c :: rest =>
      if old ≠ [] ∧ old.isPrefixOf (c :: rest) then
        new ++ go budget ((c :: rest).drop old.length)
      else
        c :: go budget rest

/-- `part` stands somewhere in the text. -/
def occurs (part : List Char) : List Char → Bool
  | [] => part.isEmpty
  | c :: rest => part.isPrefixOf (c :: rest) || occurs part rest

/-- `part` stands somewhere in `text`. -/
def contains (text part : String) : Bool :=
  occurs part.toList text.toList

/-- How often `part` stands in the text, occurrences that overlap an earlier one left
out. -/
def count (part : List Char) (text : List Char) : Nat :=
  go text.length text
where
  go : Nat → List Char → Nat
    | 0, _ => 0
    | _, [] => 0
    | budget + 1, c :: rest =>
      if part ≠ [] ∧ part.isPrefixOf (c :: rest) then
        go budget ((c :: rest).drop part.length) + 1
      else
        go budget rest

theorem stretches_ne_nil (isGap : Char → Bool) (chars : List Char) :
    stretches isGap chars ≠ [] := by
  cases chars with
  | nil => simp [stretches]
  | cons c rest =>
      unfold stretches
      split
      · simp
      · split <;> simp

theorem length_stretches (isGap : Char → Bool) (chars : List Char) :
    (stretches isGap chars).length = chars.countP isGap + 1 := by
  induction chars with
  | nil => rfl
  | cons c rest ih =>
      by_cases hgap : isGap c
      · simp [stretches, hgap, ih]
      · cases hrest : stretches isGap rest with
        | nil => exact absurd hrest (stretches_ne_nil isGap rest)
        | cons first others =>
            rw [hrest] at ih
            simp [stretches, hgap, hrest] at ih ⊢
            omega

/-- Joining the fields with the separator gives the text back. -/
theorem intercalate_stretches (separator : Char) (chars : List Char) :
    [separator].intercalate (stretches (· == separator) chars) = chars := by
  induction chars with
  | nil => rfl
  | cons c rest ih =>
      cases hrest : stretches (· == separator) rest with
      | nil => exact absurd hrest (stretches_ne_nil _ rest)
      | cons first others =>
          rw [hrest] at ih
          by_cases hgap : c = separator
          · subst hgap
            simp [stretches, hrest, ih]
          · cases others with
            | nil => simpa [stretches, hrest, hgap] using ih
            | cons second more =>
                simpa [stretches, hrest, hgap] using ih

end DesignTokens.Text
