import DesignTokens.Entries

/-!
# Items of a TOML document

A TOML document is a table of items. Dates and times are kept as they are written,
since nothing here is computed from them.
-/

namespace DesignTokens.Toml

inductive Fault where
  /-- The text is not TOML. -/
  | malformed
  /-- A decimal whole number has too many digits. -/
  | oversizedNumber
deriving DecidableEq, Repr

inductive Item where
  | text (s : String)
  | flag (value : Bool)
  | int (n : Int)
  | float (x : Float)
  /-- A date, a time of day or both. -/
  | moment (written : String)
  | array (items : List Item)
  | table (entries : List (String × Item))
deriving Inhabited, Repr

/-- The entries of a table, in order of first mention. -/
abbrev Table := List (String × Item)

/-- The names that lead to an entry from the root of a document. -/
abbrev Key := List String

namespace Item

/-- Items that count as set: not false, zero or empty. -/
def isSet : Item → Bool
  | .text s => !s.isEmpty
  | .flag value => value
  | .int n => n != 0
  | .float x => x != 0.0
  | .moment _ => true
  | .array items => !items.isEmpty
  | .table entries => !entries.isEmpty

/-- Arrays and tables, to which nothing can be added once they are written out. -/
def isComposite : Item → Bool
  | .array _ | .table _ => true
  | _ => false

end Item

namespace Table

/-- The table changed by `change` below the names of `key`. Tables on the way are
created where there is nothing. If `intoArrays`, the way goes through the last table
of an array; it never goes through any other item. -/
def alter (intoArrays : Bool) (change : Table → Option Table) : Key → Table → Option Table
  | [], table => change table
  | name :: rest, table =>
    match Entries.get? table name with
    | none => do
      return Entries.insert table name (.table (← alter intoArrays change rest []))
    | some (.table inner) => do
      return Entries.insert table name (.table (← alter intoArrays change rest inner))
    | some (.array items) =>
      match intoArrays, items.getLast? with
      | true, some (.table inner) => do
        let changed ← alter intoArrays change rest inner
        return Entries.insert table name (.array (items.dropLast ++ [.table changed]))
      | _, _ => none
    | some _ => none

/-- One more entry, under a name that is not there yet. -/
def add (name : String) (item : Item) (table : Table) : Option Table :=
  if Entries.contains table name then none else some (Entries.insert table name item)

/-- One more table in the array under a name. -/
def append (name : String) (table : Table) : Option Table :=
  match Entries.get? table name with
  | none => some (Entries.insert table name (.array [.table []]))
  | some (.array items) => some (Entries.insert table name (.array (items ++ [.table []])))
  | some _ => none

/-- The last name of a key and the names before it. -/
def splitKey (key : Key) : Key × String :=
  (key.dropLast, key.getLast?.getD "")

end Table

end DesignTokens.Toml
