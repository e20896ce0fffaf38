import DesignTokens.Name
import DesignTokens.Schema

/-!
# What can go wrong

Errors say their cause; the wording of every message is here and nowhere else. A
problem concerns the authored tokens or the settings and can name the file, the
tier and the category where it arose. A fault is an input of the wrong shape or a
file that cannot be reached.
-/

namespace DesignTokens

/-- Where a problem arose. -/
structure Context where
  file : Option String := none
  tier : Option String := none
  category : Option String := none
deriving DecidableEq, Repr

namespace Context

/-- The tier, the category and the file, those that are known. -/
def shown (context : Context) : String :=
  let named (label : String) (name : Option String) : List String :=
    match name with
    | some text => if text.isEmpty then [] else [label ++ " " ++ text]
    | none => []
  let location := ", ".intercalate
    (named "tier" context.tier ++ named "category" context.category)
  match context.file with
  | some file => if location.isEmpty then file else location ++ ": " ++ file
  | none => location

end Context

/-- An operation on the file tree that cannot be done. -/
inductive FileFault where
  | notFound
  | isDirectory
  | notDirectory
  | exists
  | notUtf8
deriving DecidableEq, Repr

/-- An input whose shape an operation cannot use. -/
inductive ShapeFault where
  /-- A member is looked up in something that has no members. -/
  | noMembers
  /-- An operation does not apply to this kind of value. -/
  | wrongKind
  /-- An object lacks a member that is needed. -/
  | missingMember (name : String)
  /-- A value stands where pairs are needed and its parts are no pairs. -/
  | notPairs
  /-- A color function needs exactly three channels. -/
  | channelCount (found : Nat)
  /-- A text channel is not a number. -/
  | channelNotNumber (text : String)
  /-- A channel is too large for a whole number. -/
  | channelTooLarge
  /-- A width is too large for a double. -/
  | widthTooLarge
  /-- A whole number has too many digits to be read. -/
  | oversizedNumber
  /-- A breakpoint table is empty. -/
  | noBreakpoints
  /-- A token without a path has no variant name. -/
  | noPath
  /-- A color axis has no value beside its default. -/
  | noSecondMode
  /-- A name is not among the color strategies. -/
  | unknownStrategy (name : String)
  /-- A file that is written does not lie in the project. -/
  | outsideProject (file : String)
  /-- A tag that closes a style has no tag that opens it. -/
  | unopenedStyle (tag : String)
  /-- A tagged scalar of a settings file does not have the form of its tag. -/
  | taggedScalar (tag : String)
deriving DecidableEq, Repr

/-- Why settings could not be read from their data. -/
inductive SettingsCause where
  | report (found : Schema.Report)
  | fault (found : ShapeFault)
deriving DecidableEq, Repr

inductive Problem where
  | stated (message : String)
  | invalidJson
  | notAnObject
  | missingReference (reference : String) (owner : Option TokenPath)
  | cycle (chain : List String)
  | sameName (first second : TokenPath) (name mode : String)
  | unknownTier (name : String)
  | missingModeFile (mode : String)
  | noSettings (file : String)
  | unreadableSettings (file : String)
  | invalidYaml (file : String)
  | settingsNotMapping (file : String)
  | invalidSettings (cause : SettingsCause)
deriving DecidableEq, Repr

inductive Error where
  | problem (what : Problem) (context : Option Context)
  | report (found : Schema.Report)
  | shape (found : ShapeFault)
  | file (found : FileFault)
deriving DecidableEq, Repr

namespace Schema.Report

def shown (report : Report) : String :=
  let count := report.flaws.length
  toString count ++ " validation error" ++ (if count = 1 then "" else "s") ++ " for " ++
    report.model

end Schema.Report

namespace ShapeFault

def message : ShapeFault → String
  | .noMembers => "the value has no members"
  | .wrongKind => "the value is of the wrong kind"
  | .missingMember name => Text.quoted name
  | .notPairs => "the value does not consist of pairs"
  | .channelCount found => "three channels expected, got " ++ toString found
  | .channelNotNumber text => "the channel is not a number: " ++ Text.quoted text
  | .channelTooLarge => "the channel is too large"
  | .widthTooLarge => "the width is too large"
  | .oversizedNumber => "the number has too many digits"
  | .noBreakpoints => "list index out of range"
  | .noPath => "list index out of range"
  | .noSecondMode => ""
  | .unknownStrategy name => Text.quoted name ++ " is not a valid color strategy"
  | .outsideProject file => Text.quoted file ++ " does not lie in the project"
  | .unopenedStyle tag => "nothing to close with " ++ tag
  | .taggedScalar tag => "the value does not have the form of " ++ tag

end ShapeFault

namespace SettingsCause

def shown : SettingsCause → String
  | .report found => found.shown
  | .fault found => found.message

end SettingsCause

namespace Problem

/-- The wording of a problem, without its context. -/
def message : Problem → String
  | .stated message => message
  | .invalidJson => "Invalid JSON"
  | .notAnObject => "Token file must contain a JSON object"
  | .missingReference reference owner =>
    let path := owner.getD []
    let place := if path.isEmpty then "" else " (in " ++ path.dotted ++ ")"
    "Reference \x7b" ++ reference ++ "\x7d not found" ++ place
  | .cycle chain => "Circular reference: " ++ " -> ".intercalate chain
  | .sameName first second name mode =>
    "Tokens " ++ first.dotted ++ " and " ++ second.dotted ++ " both normalize to '" ++ name ++
      "' in mode '" ++ mode ++ "'"
  | .unknownTier name => "Tier '" ++ name ++ "' not found"
  | .missingModeFile mode => "Mode file for '" ++ mode ++ "' not found"
  | .noSettings file => "Configuration not found: " ++ file
  | .unreadableSettings file => "Cannot read " ++ file
  | .invalidYaml file => "Invalid YAML in " ++ file
  | .settingsNotMapping file => "Expected a mapping in " ++ file
  | .invalidSettings cause => "Failed to parse build configuration: " ++ cause.shown

/-- The problem lies in the settings of a project. -/
def concernsSettings : Problem → Bool
  | .noSettings _ | .unreadableSettings _ | .invalidYaml _ | .settingsNotMapping _
  | .invalidSettings _ => true
  | _ => false

end Problem

namespace Error

/-- The wording of an error: for a problem its context on a line of its own, then
the message. -/
def message : Error → String
  | .problem what none => what.message
  | .problem what (some context) => context.shown ++ "\n" ++ what.message
  | .report found => found.shown
  | .shape found => found.message
  | .file .notUtf8 => "the file is not UTF-8 text"
  | .file _ => "OS error"

end Error

end DesignTokens
