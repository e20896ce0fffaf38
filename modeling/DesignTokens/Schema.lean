import DesignTokens.Value.Data

/-!
# Checked fields

Structures that come from outside are built field by field. Every field is checked,
in the order of its declaration, and all flaws are reported together with the place
where each was found.
-/

namespace DesignTokens.Schema

/-- A step on the way to a flaw. -/
inductive Place where
  | field (name : String)
  | index (n : Int)
deriving DecidableEq, Repr

inductive Fault where
  | missing
  | notText
  | notUnicode
  | notSequence
  | notMapping
  | notFlag
  | unknownFlag
  | notOneOf
  | rule (message : String)
deriving DecidableEq, Repr

structure Flaw where
  place : List Place
  fault : Fault
deriving DecidableEq, Repr

/-- All flaws of one structure. -/
structure Report where
  model : String
  flaws : List Flaw
deriving DecidableEq, Repr

/-- A checked value or everything that is wrong with it. -/
inductive Checked (α : Type) where
  | valid (value : α)
  | flawed (flaws : List Flaw)

namespace Checked

variable {α β : Type}

def flaws : Checked α → List Flaw
  | .valid _ => []
  | .flawed found => found

def fail (fault : Fault) : Checked α :=
  .flawed [⟨[], fault⟩]

/-- The same flaws seen from one step further out. -/
def within (place : Place) : Checked α → Checked α
  | .valid value => .valid value
  | .flawed found => .flawed (found.map fun flaw => { flaw with place := place :: flaw.place })

/-- Flaws of both sides are kept, those of the first side first. -/
def both (f : Checked (α → β)) (x : Checked α) : Checked β :=
  match f, x with
  | .valid g, .valid value => .valid (g value)
  | f, x => .flawed (f.flaws ++ x.flaws)

def mapValid (f : α → β) : Checked α → Checked β
  | .valid value => .valid (f value)
  | .flawed found => .flawed found

instance : Functor Checked := ⟨mapValid, fun a x => mapValid (fun _ => a) x⟩

instance : Applicative Checked where
  pure := .valid
  seq f x := both f (x ())

def all : List (Checked α) → Checked (List α)
  | [] => .valid []
  | x :: rest => both (mapValid List.cons x) (all rest)

def toExcept (model : String) : Checked α → Except Report α
  | .valid value => .ok value
  | .flawed found => .error ⟨model, found⟩

end Checked

/-- Entries of a mapping whose keys have all been found to be text. -/
abbrev Fields := List (String × Data)

def field? (fields : Fields) (name : String) : Option Data :=
  (fields.find? fun entry => entry.1 == name).map Prod.snd

def required {α : Type} (fields : Fields) (name : String) (check : Data → Checked α) :
    Checked α :=
  (match field? fields name with
    | some data => check data
    | none => .fail .missing).within (.field name)

def optional {α : Type} (fields : Fields) (name : String) (fallback : α)
    (check : Data → Checked α) : Checked α :=
  match field? fields name with
  | some data => (check data).within (.field name)
  | none => .valid fallback

/-- Text, also as octets in UTF-8. -/
def text : Data → Checked String
  | .scalar (.text s) => .valid s
  | .scalar (.octets bytes) =>
    match String.fromUTF8? ⟨bytes.toArray⟩ with
    | some s => .valid s
    | none => .fail .notUnicode
  | _ => .fail .notText

def textOrNull : Data → Checked (Option String)
  | .scalar .null => .valid none
  | data => .mapValid some (text data)

def trueWords : List String := ["true", "t", "yes", "y", "on", "1"]

def falseWords : List String := ["false", "f", "no", "n", "off", "0"]

/-- The integers from `-wordBound` up to below `wordBound` fit in 64 bits. -/
def wordBound : Nat := 0x8000000000000000

def flagOfInt (n : Int) : Checked Bool :=
  if n = 0 then .valid false else if n = 1 then .valid true else .fail .unknownFlag

/-- A flag, the numbers 0 and 1, or one of the usual words in any case. -/
def flag : Data → Checked Bool
  | .scalar (.bool b) => .valid b
  | .scalar (.int n) => flagOfInt n
  | .scalar (.float x) =>
    match Decimal.Dyadic.ofFloat? x with
    | some d =>
      if d.isWhole ∧ d.truncate.natAbs < wordBound then flagOfInt d.truncate else .fail .notFlag
    | none => .fail .notFlag
  | .scalar (.text s) => word s
  | .scalar (.octets bytes) =>
    match String.fromUTF8? ⟨bytes.toArray⟩ with
    | some s => word s
    | none => .fail .unknownFlag
  | _ => .fail .notFlag
where
  word (s : String) : Checked Bool :=
    let lowered := String.ofList (s.toList.map Char.toLower)
    if lowered ∈ trueWords then .valid true
    else if lowered ∈ falseWords then .valid false
    else .fail .unknownFlag

/-- A list whose items are checked one by one. -/
def sequence {α : Type} (check : Data → Checked α) : Data → Checked (List α)
  | .list items =>
    .all (items.zipIdx.map fun (item, i) => (check item).within (.index i))
  | _ => .fail .notSequence

/-- The place of a mapping key. -/
def keyPlace (key : Scalar) : Place :=
  match key with
  | .text s => .field s
  | key =>
    match key.whole? with
    | some n => if -(wordBound : Int) ≤ n ∧ n < wordBound then .index n else .field key.shown
    | none => .field key.shown

/-- A mapping with text keys whose values are checked one by one. -/
def mapping {α : Type} (check : Data → Checked α) : Data → Checked (List (String × α))
  | .mapping entries =>
    .all (entries.map fun (key, value) =>
      let name := ((text (.scalar key)).within (.field "[key]")).within (keyPlace key)
      let content := (check value).within (keyPlace key)
      .both (.mapValid Prod.mk name) content)
  | _ => .fail .notMapping

/-- One of the words of a table, exactly as spelled. -/
def oneOf {α : Type} (table : List (String × α)) : Data → Checked α
  | .scalar (.text s) =>
    match table.lookup s with
    | some value => .valid value
    | none => .fail .notOneOf
  | _ => .fail .notOneOf

end DesignTokens.Schema
