import DesignTokens.Decimal.Numeral
import DesignTokens.Mode.Axis

/-!
# Breakpoints

A breakpoint is a mode that starts at a width in pixels. Breakpoints are written
mobile first: the narrowest one needs no condition, and the others follow in
ascending order, so that the widest one that applies comes last.
-/

namespace DesignTokens

structure Breakpoint where
  name : String
  /-- A pixel length such as `620px`. -/
  minWidth : String
deriving DecidableEq, Repr

namespace Breakpoint

/-- Digits, possibly with a point and more digits. -/
def isBareNumber (chars : List Char) : Bool :=
  let afterWhole := chars.dropWhile Text.isDigit
  (chars.head?.any Text.isDigit) &&
    match afterWhole with
    | [] => true
    | '.' :: fraction => !fraction.isEmpty && fraction.all Text.isDigit
    | _ => false

/-- The number before the unit of a pixel length. -/
def amount? (chars : List Char) : Option (List Char) :=
  match chars.reverse with
  | 'x' :: 'p' :: number =>
    if isBareNumber number.reverse then some number.reverse else none
  | _ => none

/-- A bare number is a pixel length without its unit; other data stay as they are. -/
def withUnit (data : Data) : Except ShapeFault Data :=
  match data with
  | .scalar (.int n) =>
    match Decimal.floatOfInt? n with
    | some _ => .ok (.scalar (.text (toString n ++ "px")))
    | none => .error .widthTooLarge
  | .scalar (.float x) =>
    .ok (.scalar (.text ((match Decimal.Dyadic.ofFloat? x with
      | some d => if d.isWhole then toString d.truncate else Decimal.writeFloat .inline x
      | none => Decimal.writeFloat .inline x) ++ "px")))
  | .scalar (.text s) =>
    if isBareNumber (Text.trim s).toList then
      .ok (.scalar (.text (Text.trim s ++ "px")))
    else
      .ok data
  | data => .ok data

/-- A pixel length without blanks around it. -/
def checkWidth (data : Data) : Schema.Checked String :=
  match data with
  | .scalar (.text s) =>
    if (amount? (Text.trim s).toList).isSome then .valid (Text.trim s) else refused
  | _ => refused
where
  refused : Schema.Checked String :=
    .fail (.rule ("Breakpoint width must be a px length, got " ++ data.shown))

/-- A breakpoint whose fields are given unchecked. -/
def ofFields (fields : Schema.Fields) : Except Error Breakpoint := do
  let width ← ((Schema.field? fields "min_width").mapM withUnit).mapError .shape
  let name := Schema.required fields "name" Schema.text
  let minWidth : Schema.Checked String := match width with
    | some data => checkWidth data
    | none => .fail .missing
  ((Breakpoint.mk <$> name <*> minWidth.within (.field "min_width")).toExcept "Breakpoint").mapError
    .report

/-- The table that holds where the settings give none. -/
def standard : List Breakpoint :=
  [⟨"small", "460px"⟩, ⟨"medium", "620px"⟩, ⟨"large", "1036px"⟩, ⟨"xLarge", "1681px"⟩]

def pixels (breakpoint : Breakpoint) : Float :=
  match amount? breakpoint.minWidth.toList with
  | some digits => (Decimal.numeral? (digits.map Text.asciiDigit)).getD 0.0
  | none => 0.0

/-- Widths are never negative, and the order of such doubles is the order of their bit
patterns. -/
def rank (breakpoint : Breakpoint) : Nat :=
  breakpoint.pixels.toBits.toNat

/-- A table by ascending width; equal widths keep their order. -/
def ascending (table : List Breakpoint) : List Breakpoint :=
  table.mergeSort fun a b => decide (a.rank ≤ b.rank)

/-- The axis of a table: the names by ascending width, the narrowest as default. -/
def axis (table : List Breakpoint) : Except Error ModeAxis :=
  match ascending table with
  | [] => .error (.shape .noBreakpoints)
  | first :: rest =>
    .ok ⟨"dimension", (first :: rest).map Breakpoint.name, first.name, by simp⟩

end Breakpoint

end DesignTokens
