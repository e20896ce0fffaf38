/-!
# Blank characters

Authored text is trimmed before it is read as a reference, a number or a width.
The blanks are the characters that Unicode calls white space, together with the
four information separators U+001C to U+001F.
-/

namespace DesignTokens.Text

/-- Blank characters as closed ranges of code points, ascending. -/
def blankRanges : List (Nat × Nat) :=
  [(0x09, 0x0D), (0x1C, 0x20), (0x85, 0x85), (0xA0, 0xA0), (0x1680, 0x1680),
    (0x2000, 0x200A), (0x2028, 0x2029), (0x202F, 0x202F), (0x205F, 0x205F),
    (0x3000, 0x3000)]

def isBlank (c : Char) : Bool :=
  blankRanges.any fun (low, high) => low ≤ c.toNat && c.toNat ≤ high

/-- Characters without those at both ends that satisfy `drop`. -/
def trimWhere (drop : Char → Bool) (chars : List Char) : List Char :=
  ((chars.dropWhile drop).reverse.dropWhile drop).reverse

/-- Text without the blanks at its ends. -/
def trim (text : String) : String :=
  String.ofList (trimWhere isBlank text.toList)

example : (blankRanges.map fun (low, high) => high + 1 - low).sum = 29 := by decide

theorem isBlank_of_isWhitespace {c : Char} (hwhite : c.isWhitespace = true) :
    isBlank c = true := by
  simp only [Char.isWhitespace, Bool.or_eq_true, decide_eq_true_eq] at hwhite
  rcases hwhite with ((rfl | rfl) | rfl) | rfl <;> decide

@[simp]
theorem trimWhere_nil (drop : Char → Bool) : trimWhere drop [] = [] := rfl

/-- Trimming takes only characters that are dropped, and only at the two ends. -/
theorem exists_eq_append_trimWhere (drop : Char → Bool) (chars : List Char) :
    ∃ before after, chars = before ++ trimWhere drop chars ++ after ∧
      (∀ c ∈ before, drop c = true) ∧ ∀ c ∈ after, drop c = true := by
  let middle := chars.dropWhile drop
  refine ⟨chars.takeWhile drop, (middle.reverse.takeWhile drop).reverse, ?_, ?_, ?_⟩
  · have hback : trimWhere drop chars ++ (middle.reverse.takeWhile drop).reverse = middle := by
      rw [trimWhere, ← List.reverse_append, List.takeWhile_append_dropWhile, List.reverse_reverse]
    rw [List.append_assoc, hback, List.takeWhile_append_dropWhile]
  · intro c hmem
    exact List.all_eq_true.1 (List.all_takeWhile (p := drop) (l := chars)) c hmem
  · intro c hmem
    exact List.all_eq_true.1 (List.all_takeWhile (p := drop) (l := middle.reverse)) c
      (List.mem_reverse.1 hmem)

end DesignTokens.Text
