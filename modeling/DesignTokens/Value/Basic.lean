/-!
# Token values

The value of a token is free-form: a scalar, a list or an object, nested to any
depth. Whole numbers and doubles are kept apart, because they are written
differently, and objects keep the order of their entries, because declarations
follow it.
-/

namespace DesignTokens

inductive Value where
  | null
  | bool (flag : Bool)
  | int (n : Int)
  | float (x : Float)
  | text (s : String)
  | list (items : List Value)
  | object (entries : List (String × Value))
deriving Inhabited, Repr

/-- Entries of an object, in insertion order. -/
abbrev Object := List (String × Value)

namespace Value

/-- Values that count as set: not null, false, zero or empty. -/
def isSet : Value → Bool
  | .null => false
  | .bool flag => flag
  | .int n => n != 0
  | .float x => x != 0.0
  | .text s => !s.isEmpty
  | .list items => !items.isEmpty
  | .object entries => !entries.isEmpty

def object? : Value → Option Object
  | .object entries => some entries
  | _ => none

def text? : Value → Option String
  | .text s => some s
  | _ => none

def isObject (v : Value) : Bool :=
  v.object?.isSome

def isText (v : Value) : Bool :=
  v.text?.isSome

theorem eq_object_of_isObject {v : Value} (hobject : v.isObject = true) :
    ∃ entries, v = .object entries := by
  cases v with
  | object entries => exact ⟨entries, rfl⟩
  | _ => cases hobject

end Value

end DesignTokens
