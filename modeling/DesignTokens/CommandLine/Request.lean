import DesignTokens.CommandLine.Arguments

/-!
# Requests

What the arguments of the program ask for: the version, help, or one of four commands
on a project. Arguments that ask for nothing of this kind are a mistake in usage.
-/

namespace DesignTokens.CommandLine

/-- Where the project and its settings are. -/
structure Place where
  directory : String := "."
  settings : Option String := none
deriving DecidableEq, Repr

inductive Request where
  | version
  | help
  | build (place : Place) (tier : String) (sequential verbose : Bool)
  | tiers (place : Place)
  | index (place : Place) (directory : String)
  | validate (place : Place)
deriving DecidableEq, Repr

namespace Request

/-- The name that stands for every tier. -/
def everyTier : String := "all"

def helpForm : OptionForm := { name := "help" }

def mainForms : List OptionForm :=
  [{ name := "version", letter := some 'v' }, helpForm]

def placeForms : List OptionForm :=
  [{ name := "project", letter := some 'p', takesValue := true },
    { name := "config", letter := some 'c', takesValue := true }, helpForm]

def buildForms : List OptionForm :=
  placeForms ++ [{ name := "sequential" }, { name := "verbose" }]

def placeOf (given : Given) : Place :=
  { directory := (given.value? "project").getD ".", settings := given.value? "config" }

/-- The request for a command with its arguments. -/
def ofCommand (command : String) (arguments : List String) : Option Request := do
  let forms ← if command = "build" then some buildForms
    else if command ∈ ["tiers", "index", "validate"] then some placeForms
    else none
  let given ← readArguments forms true none arguments
  let place := placeOf given
  if given.has "help" then
    return .help
  match command, given.operands with
  | "build", [] => return .build place everyTier (given.has "sequential") (given.has "verbose")
  | "build", [tier] => return .build place tier (given.has "sequential") (given.has "verbose")
  | "tiers", [] => return .tiers place
  | "index", [directory] => return .index place directory
  | "validate", [] => return .validate place
  | _, _ => none

/-- The request that the arguments of the program make. -/
def ofArguments (arguments : List String) : Option Request := do
  let given ← readArguments mainForms false none arguments
  match given.options, given.operands with
  | ("version", _) :: _, _ => return .version
  | _ :: _, _ => return .help
  | [], command :: rest => ofCommand command rest
  | [], [] => none

/-- The directories and files that a request is about. -/
def concerns : Request → List String
  | .version | .help => []
  | .build place _ _ _ | .tiers place | .validate place => place.directory :: place.settings.toList
  | .index place directory => directory :: place.directory :: place.settings.toList

end Request

end DesignTokens.CommandLine
