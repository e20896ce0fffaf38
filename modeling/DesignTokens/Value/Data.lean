import DesignTokens.Decimal.Layout
import DesignTokens.Text.Quoted
import DesignTokens.Value.Basic
import DesignTokens.Value.Calendar

/-!
# Plain data

A settings file holds plain data: scalars, lists, and mappings whose keys may be
any scalar. Beside the scalars of a token value there are octets, dates and points
in time. Keys that are equal as numbers are one key, whatever their kind.
-/

namespace DesignTokens

/-- A time of day on a date, with the offset from universal time in minutes if one
was given. -/
structure Moment where
  date : Date
  hour : Nat
  minute : Nat
  second : Nat
  microsecond : Nat
  offset : Option Int
deriving DecidableEq, Repr

inductive Scalar where
  | null
  | bool (flag : Bool)
  | int (n : Int)
  | float (x : Float)
  | text (s : String)
  | octets (bytes : List UInt8)
  | date (d : Date)
  | moment (m : Moment)
deriving DecidableEq, Repr, Inhabited

inductive Data where
  | scalar (value : Scalar)
  | list (items : List Data)
  | mapping (entries : List (Scalar × Data))
deriving Inhabited, Repr

namespace Scalar

/-- Flags count as the whole numbers 0 and 1. -/
def whole? : Scalar → Option Int
  | .bool flag => some flag.toNat
  | .int n => some n
  | _ => none

/-- Two scalars are one key. -/
def sameKey (a b : Scalar) : Bool :=
  match a.whole?, b.whole?, a, b with
  | some m, some n, _, _ => m == n
  | some m, none, _, .float x => Decimal.sameValue x m
  | none, some n, .float x, _ => Decimal.sameValue x n
  | _, _, .float x, .float y => x == y
  | _, _, _, _ => a == b

instance : BEq Scalar := ⟨sameKey⟩

def padded (width n : Nat) : String :=
  let digits := toString n
  String.ofList (List.replicate (width - digits.length) '0') ++ digits

def octetText (quote : Char) (byte : UInt8) : List Char :=
  let c := Char.ofNat byte.toNat
  if c = quote ∨ c = '\\' then ['\\', c]
  else if c = '\n' then ['\\', 'n']
  else if c = '\r' then ['\\', 'r']
  else if c = '\t' then ['\\', 't']
  else if 0x20 ≤ byte.toNat ∧ byte.toNat < 0x7F then [c]
  else '\\' :: 'x' :: Text.hexDigits 2 byte.toNat

def offsetText (minutes : Int) : String :=
  if minutes = 0 then
    "datetime.timezone.utc"
  else
    let days := minutes.fdiv 1440
    let seconds := minutes.fmod 1440 * 60
    let parts :=
      (if days = 0 then [] else ["days=" ++ toString days]) ++
        (if seconds = 0 then [] else ["seconds=" ++ toString seconds])
    "datetime.timezone(datetime.timedelta(" ++ ", ".intercalate parts ++ "))"

def dateText (d : Date) : String :=
  ", ".intercalate [toString d.year, toString d.month, toString d.day]

/-- The form of a scalar inside a message. -/
def shown : Scalar → String
  | .null => "None"
  | .bool true => "True"
  | .bool false => "False"
  | .int n => toString n
  | .float x => Decimal.writeFloat .inline x
  | .text s => Text.quoted s
  | .octets bytes =>
    let chars := bytes.map fun b => Char.ofNat b.toNat
    let quote := Text.quoteFor chars
    String.ofList ('b' :: quote :: bytes.flatMap (octetText quote) ++ [quote])
  | .date d => "datetime.date(" ++ dateText d ++ ")"
  | .moment m =>
    let finest :=
      if m.microsecond ≠ 0 then [m.hour, m.minute, m.second, m.microsecond]
      else if m.second ≠ 0 then [m.hour, m.minute, m.second]
      else [m.hour, m.minute]
    let zone := match m.offset with
      | some minutes => ", tzinfo=" ++ offsetText minutes
      | none => ""
    "datetime.datetime(" ++ dateText m.date ++ ", " ++ ", ".intercalate (finest.map toString) ++
      zone ++ ")"

def isSet : Scalar → Bool
  | .null => false
  | .bool flag => flag
  | .int n => n != 0
  | .float x => x != 0.0
  | .text s => !s.isEmpty
  | .octets bytes => !bytes.isEmpty
  | .date _ => true
  | .moment _ => true

end Scalar

namespace Data

def isSet : Data → Bool
  | .scalar value => value.isSet
  | .list items => !items.isEmpty
  | .mapping entries => !entries.isEmpty

/-- The entry of a mapping at a text key. -/
def field? (entries : List (Scalar × Data)) (key : String) : Option Data :=
  (entries.find? fun (k, _) => k == Scalar.text key).map Prod.snd

mutual

/-- The form of data inside a message. -/
def shown : Data → String
  | .scalar value => value.shown
  | .list items => "[" ++ ", ".intercalate (shownItems items) ++ "]"
  | .mapping entries => "\x7b" ++ ", ".intercalate (shownEntries entries) ++ "\x7d"
termination_by structural d => d

def shownItems : List Data → List String
  | [] => []
  | item :: rest => item.shown :: shownItems rest
termination_by structural items => items

def shownEntries : List (Scalar × Data) → List String
  | [] => []
  | (key, value) :: rest => (key.shown ++ ": " ++ value.shown) :: shownEntries rest
termination_by structural entries => entries

end

end Data

namespace Value

mutual

/-- A token value as plain data. -/
def toData : Value → Data
  | .null => .scalar .null
  | .bool flag => .scalar (.bool flag)
  | .int n => .scalar (.int n)
  | .float x => .scalar (.float x)
  | .text s => .scalar (.text s)
  | .list items => .list (toDataItems items)
  | .object entries => .mapping (toDataEntries entries)
termination_by structural v => v

def toDataItems : List Value → List Data
  | [] => []
  | item :: rest => item.toData :: toDataItems rest
termination_by structural items => items

def toDataEntries : List (String × Value) → List (Scalar × Data)
  | [] => []
  | (key, value) :: rest => (.text key, value.toData) :: toDataEntries rest
termination_by structural entries => entries

end

/-- The form of a value inside other text: text is itself, all else is written as
in a message. -/
def inline (v : Value) : String :=
  match v with
  | .text s => s
  | v => v.toData.shown

end Value

end DesignTokens
