import DesignTokens.Proofs.Traced
import DesignTokens.Stylesheet.Literal

/-!
# Literal texts from place to place

The literal text of a list is made of those of its items, and the one of a shadow of those of
its members. The type of the token matters to lists alone, and there only as that of a font
stack.
-/

namespace DesignTokens.Stylesheet

theorem literalText_of_not_list {v : Value} (hlist : ∀ items, v ≠ .list items)
    (type : Option String) : literalText type v = literalText none v := by
  cases v with
  | list items => exact absurd rfl (hlist items)
  | _ => rfl

mutual

/-- Only in font stacks the literal text depends on the type. -/
theorem literalText_of_type_ne {type : Option String} (htype : type ≠ some "fontFamily")
    (v : Value) : literalText type v = literalText none v := by
  cases v with
  | list items =>
      simp only [literalText, literalItems_of_type_ne htype items, htype, reduceCtorEq, false_or]
  | _ => rfl
termination_by structural v

theorem literalItems_of_type_ne {type : Option String} (htype : type ≠ some "fontFamily")
    (items : List Value) : literalItems type items = literalItems none items := by
  cases items with
  | nil => rfl
  | cons item rest =>
      rw [literalItems, literalItems, literalText_of_type_ne htype item,
        literalItems_of_type_ne htype rest]
termination_by structural items

end

theorem literalMember_eq (key : String) (entries : Object) :
    literalMember key entries = match Entries.get? entries key with
      | none => pure none
      | some value => some <$> literalText none value := by
  induction entries with
  | nil => rfl
  | cons entry rest ih =>
      rw [literalMember, Entries.get?_cons, ih]
      split <;> rfl

theorem literalItems_eq_mapM (type : Option String) (items : List Value) :
    literalItems type items = items.mapM (literalText type) := by
  induction items with
  | nil => rfl
  | cons item rest ih =>
      rw [literalItems, ih, List.mapM_cons]

end DesignTokens.Stylesheet
