/-!
# Arguments of a command

Options begin with a hyphen and may stand before, between and behind the operands,
unless the operands name a command of its own. Two hyphens end the options. One-letter
options may be joined, and a value may be attached to its option.
-/

namespace DesignTokens.CommandLine

structure OptionForm where
  name : String
  letter : Option Char := none
  takesValue : Bool := false
deriving DecidableEq, Repr

/-- What a list of arguments gives. -/
structure Given where
  /-- Options with their values, in order. An option without a value has no text. -/
  options : List (String × String) := []
  operands : List String := []
deriving DecidableEq, Repr

namespace Given

def has (given : Given) (name : String) : Bool :=
  given.options.any fun option => option.1 == name

/-- The value of an option; the last one counts. -/
def value? (given : Given) (name : String) : Option String :=
  given.options.reverse.lookup name

end Given

/-- What one argument says: options with their values, and perhaps one more option
whose value is the next argument. -/
abbrev Reading := List (String × String) × Option String

/-- One-letter options joined. The letters behind an option with a value are the
value. -/
def readLetters (forms : List OptionForm) : List Char → Option Reading
  | [] => some ([], none)
  | c :: rest =>
    match forms.find? fun form => form.letter = some c with
    | none => none
    | some form =>
      if form.takesValue then
        some (if rest.isEmpty then ([], some form.name) else ([(form.name, String.ofList rest)], none))
      else
        (readLetters forms rest).map fun (options, awaiting) => ((form.name, "") :: options, awaiting)

/-- A spelled out option, after its hyphens. An equals sign attaches its value. -/
def readWord (forms : List OptionForm) (chars : List Char) : Option Reading :=
  let name := String.ofList (chars.takeWhile (· ≠ '='))
  match forms.find? fun form => form.name = name, chars.dropWhile (· ≠ '=') with
  | none, _ => none
  | some form, [] => some (if form.takesValue then ([], some name) else ([(name, "")], none))
  | some form, _ :: value => if form.takesValue then some ([(name, String.ofList value)], none) else none

/-- An argument that begins with a hyphen and does not consist of it alone. -/
def readOption (forms : List OptionForm) : List Char → Option Reading
  | '-' :: '-' :: chars => readWord forms chars
  | _ :: chars => readLetters forms chars
  | [] => none

def isOption (argument : String) : Bool :=
  "-".isPrefixOf argument && argument != "-"

namespace Given

/-- More options in front. -/
def withOptions (options : List (String × String)) (given : Given) : Given :=
  { given with options := options ++ given.options }

/-- One more operand in front. -/
def withOperand (operand : String) (given : Given) : Given :=
  { given with operands := operand :: given.operands }

end Given

/-- Reads arguments, the first of which is the value of the option `awaiting` if there
is one. If not `mixed`, the options end with the first operand. An unknown option or a
missing value is an error. -/
def readArguments (forms : List OptionForm) (mixed : Bool) :
    Option String → List String → Option Given
  | none, [] => some {}
  | some _, [] => none
  | some name, value :: rest =>
    (readArguments forms mixed none rest).map (Given.withOptions [(name, value)])
  | none, argument :: rest =>
    if argument = "--" then
      some { operands := rest }
    else if isOption argument then
      match readOption forms argument.toList with
      | some (options, awaiting) =>
        (readArguments forms mixed awaiting rest).map (Given.withOptions options)
      | none => none
    else if mixed then
      (readArguments forms mixed none rest).map (Given.withOperand argument)
    else
      some { operands := argument :: rest }

end DesignTokens.CommandLine
