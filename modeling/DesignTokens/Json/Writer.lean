import DesignTokens.Value.Data

/-!
# Values as JSON text

Values are written in two layouts, on one line without blanks or indented by two
spaces a level, and with or without an escape for every character beyond ASCII.
Entries are written in their own order.
-/

namespace DesignTokens.Json

structure Style where
  asciiOnly : Bool
  indented : Bool
deriving DecidableEq, Repr

/-- One line, other scripts as they are. -/
def Style.line : Style := ⟨false, false⟩

/-- One line, other scripts escaped. -/
def Style.asciiLine : Style := ⟨true, false⟩

/-- Indented, other scripts as they are: the layout of exported documents. -/
def Style.document : Style := ⟨false, true⟩

/-- Indented, other scripts escaped. -/
def Style.asciiDocument : Style := ⟨true, true⟩

/-- An escape of one or, beyond the basic plane, two UTF-16 units. -/
def unicodeEscape (n : Nat) : List Char :=
  let unit (u : Nat) : List Char := '\\' :: 'u' :: Text.hexDigits 4 u
  if n ≤ 0xFFFF then
    unit n
  else
    unit (0xD800 + (n - 0x10000) / 0x400) ++ unit (0xDC00 + (n - 0x10000) % 0x400)

def escape (style : Style) (c : Char) : List Char :=
  if c = '"' ∨ c = '\\' then ['\\', c]
  else if c = '\n' then ['\\', 'n']
  else if c = '\r' then ['\\', 'r']
  else if c = '\t' then ['\\', 't']
  else if c = '\x08' then ['\\', 'b']
  else if c = '\x0c' then ['\\', 'f']
  else if c.toNat < 0x20 ∨ (style.asciiOnly ∧ 0x7F ≤ c.toNat) then unicodeEscape c.toNat
  else [c]

def writeText (style : Style) (s : String) : String :=
  String.ofList ('"' :: s.toList.flatMap (escape style) ++ ['"'])

/-- Parts between brackets, on one line or one to a line. -/
def bracket (style : Style) (depth : Nat) (opening closing : String) (parts : List String) :
    String :=
  if parts.isEmpty then
    opening ++ closing
  else if style.indented then
    let pad (level : Nat) : String := "\n" ++ String.ofList (List.replicate (2 * level) ' ')
    opening ++ pad (depth + 1) ++ (("," ++ pad (depth + 1)).intercalate parts) ++ pad depth ++
      closing
  else
    opening ++ ",".intercalate parts ++ closing

mutual

def write (style : Style) (depth : Nat) : Value → String
  | .null => "null"
  | .bool flag => if flag then "true" else "false"
  | .int n => toString n
  | .float x => Decimal.writeFloat .json x
  | .text s => writeText style s
  | .list items => bracket style depth "[" "]" (writeItems style (depth + 1) items)
  | .object entries =>
    bracket style depth "\x7b" "\x7d" (writeEntries style (depth + 1) entries)
termination_by structural v => v

def writeItems (style : Style) (depth : Nat) : List Value → List String
  | [] => []
  | item :: rest => write style depth item :: writeItems style depth rest
termination_by structural items => items

def writeEntries (style : Style) (depth : Nat) : List (String × Value) → List String
  | [] => []
  | (key, value) :: rest =>
    (writeText style key ++ (if style.indented then ": " else ":") ++ write style depth value) ::
      writeEntries style depth rest
termination_by structural entries => entries

end

/-- The JSON text of a value. -/
def render (style : Style) (v : Value) : String :=
  write style 0 v

/-- The text that a scalar has as an object key. -/
def keyText : Scalar → String
  | .null => "null"
  | .bool flag => if flag then "true" else "false"
  | .int n => toString n
  | .float x => Decimal.writeFloat .json x
  | .text s => s
  | other => other.shown

end DesignTokens.Json
