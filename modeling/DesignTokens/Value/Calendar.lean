/-!
# Dates

A date as year, month and day. Years begin with 1, and the calendar is the one with a
leap day every fourth year, save three times in four centuries.
-/

namespace DesignTokens

structure Date where
  year : Nat
  month : Nat
  day : Nat
deriving DecidableEq, Repr

namespace Date

def isLeap (year : Nat) : Bool :=
  year % 4 = 0 && (year % 100 ≠ 0 || year % 400 = 0)

def daysIn (year month : Nat) : Nat :=
  if month = 2 then if isLeap year then 29 else 28
  else if month = 4 ∨ month = 6 ∨ month = 9 ∨ month = 11 then 30
  else 31

/-- The date is in the calendar. -/
def isValid (date : Date) : Bool :=
  1 ≤ date.year && 1 ≤ date.month && date.month ≤ 12 && 1 ≤ date.day &&
    date.day ≤ daysIn date.year date.month

example : isValid ⟨2000, 2, 29⟩ = true := by decide

example : isValid ⟨1900, 2, 29⟩ = false := by decide

end Date

end DesignTokens
