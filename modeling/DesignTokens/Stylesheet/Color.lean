import DesignTokens.Decimal.Numeral
import DesignTokens.Traced
import DesignTokens.Value.Shape

/-!
# Color functions

A structured color names a color space and gives its channels and an opacity. Each
supported space has its own function in the stylesheet. A color that cannot be read
is reported and passed through as it stands, so that the problem stays visible.
-/

namespace DesignTokens.Stylesheet

/-- A channel is a number or a word such as `none`. -/
inductive Channel where
  | number (x : Float)
  | word (s : String)
deriving DecidableEq, Repr

structure Color where
  channels : List Channel
  opacity : Float
deriving DecidableEq, Repr

/-- How the colors of a space are written. -/
inductive ColorForm where
  /-- Three whole numbers up to 255. -/
  | rgb
  /-- The general color function with the name of the space. -/
  | general (space : String)
  /-- A function of its own, with a percent sign at some channels. -/
  | named (function : String) (percentAt : List Nat)
deriving DecidableEq, Repr

def colorForms : List (String × ColorForm) :=
  [("srgb", .rgb),
    ("srgb-linear", .general "srgb-linear"),
    ("hsl", .named "hsl" [1, 2]),
    ("hwb", .named "hwb" [1, 2]),
    ("lab", .named "lab" [0]),
    ("lch", .named "lch" [0]),
    ("oklab", .named "oklab" []),
    ("oklch", .named "oklch" []),
    ("display-p3", .general "display-p3"),
    ("a98-rgb", .general "a98-rgb"),
    ("prophoto-rgb", .general "prophoto-rgb"),
    ("rec2020", .general "rec2020"),
    ("xyz-d65", .general "xyz-d65"),
    ("xyz-d50", .general "xyz-d50")]

def noNumber : String := "Input should be a valid number"

/-- A channel: numbers and flags as doubles, text as it is. -/
def Channel.ofValue : Value → Except String Channel
  | .bool flag => .ok (.number (if flag then 1.0 else 0.0))
  | .int n =>
    match Decimal.floatOfInt? n with
    | some x => .ok (.number x)
    | none => .error noNumber
  | .float x => .ok (.number x)
  | .text s => .ok (.word s)
  | _ => .error noNumber

/-- An opacity: a number, a flag or a number in text. -/
def opacityOf : Value → Except String Float
  | .bool flag => .ok (if flag then 1.0 else 0.0)
  | .int n =>
    match Decimal.floatOfInt? n with
    | some x => .ok x
    | none => .error noNumber
  | .float x => .ok x
  | .text s =>
    match Decimal.opacityNumber? s with
    | some x => .ok x
    | none => .error (noNumber ++ ", unable to parse string as a number")
  | _ => .error noNumber

/-- The channels and the opacity of an object, or what is wrong with them. A color
without an opacity is opaque. -/
def Color.ofObject (entries : Object) : Except String Color := do
  let channels ← match Entries.get? entries "components" with
    | none => .error "Field required"
    | some (.list items) => items.mapM Channel.ofValue
    | some _ => .error "Input should be a valid list"
  let opacity ← match Entries.get? entries "alpha" with
    | none => .ok 1.0
    | some v => opacityOf v
  return ⟨channels, opacity⟩

def Channel.shown : Channel → String
  | .number x => (Value.float x).numberText
  | .word s => s

/-- A channel between 0 and 1 as a whole number up to 255; a half goes to the even
neighbour. -/
def Channel.byteText : Channel → Except Error String
  | .word "none" => .ok "none"
  | .number x => whole x
  | .word s =>
    match Decimal.channelNumber? s with
    | some x => whole x
    | none => .error (.shape (.channelNotNumber s))
where
  whole (x : Float) : Except Error String :=
    let scaled := x * 255.0
    match Decimal.Dyadic.ofFloat? scaled with
    | some d => .ok (toString d.round)
    | none =>
      if scaled.isNaN then .error (.shape (.channelNotNumber "nan"))
      else .error (.shape .channelTooLarge)

/-- The part of a color function that gives an opacity other than 1. -/
def opacitySuffix (opacity : Float) : String :=
  if opacity != 1.0 then " / " ++ (Value.float opacity).numberText else ""

def threeChannels (texts : List String) : Except Error (List String) :=
  if texts.length = 3 then .ok texts else .error (.shape (.channelCount texts.length))

/-- The text of a color in the form of its space. -/
def Color.write (form : ColorForm) (color : Color) : Except Error String :=
  match form with
  | .rgb => do
    let texts ← threeChannels (← (color.channels.take 3).mapM Channel.byteText)
    let channels := ", ".intercalate texts
    if color.opacity != 1.0 then
      return "rgba(" ++ channels ++ ", " ++ (Value.float color.opacity).numberText ++ ")"
    else
      return "rgb(" ++ channels ++ ")"
  | .general space => do
    let texts ← threeChannels ((color.channels.take 3).map Channel.shown)
    return "color(" ++ space ++ " " ++ " ".intercalate texts ++ opacitySuffix color.opacity ++ ")"
  | .named function percentAt =>
    let texts := (color.channels.take 3).zipIdx.map fun (channel, i) =>
      if i ∈ percentAt ∧ channel ≠ .word "none" then channel.shown ++ "%" else channel.shown
    .ok (function ++ "(" ++ " ".intercalate texts ++ opacitySuffix color.opacity ++ ")")

end DesignTokens.Stylesheet
