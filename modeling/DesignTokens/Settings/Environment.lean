import DesignTokens.Text.Blank
import DesignTokens.Text.Lowercase
import DesignTokens.Traced

/-!
# The environment of a run

A word in the process environment says where a run takes place, and this decides how
much a build reports when the settings do not say so.
-/

namespace DesignTokens

inductive Environment where
  | development
  | production
  | test
deriving DecidableEq, Repr

inductive LogLevel where
  | silent
  | default
  | verbose
deriving DecidableEq, Repr

namespace LogLevel

def name : LogLevel → String
  | .silent => "silent"
  | .default => "default"
  | .verbose => "verbose"

def table : List (String × LogLevel) :=
  [.silent, .default, .verbose].map fun level => (level.name, level)

end LogLevel

namespace Environment

def name : Environment → String
  | .development => "development"
  | .production => "production"
  | .test => "test"

/-- Words for the environments; no word at all means development. -/
def words : List (String × Environment) :=
  [("production", .production), ("prod", .production), ("test", .test), ("testing", .test),
    ("development", .development), ("dev", .development), ("", .development)]

/-- The environment that a word names, in any case and with blanks around it. An
unknown word is reported and means development. -/
def ofWord (word : Option String) : Traced Environment :=
  let plain := Text.trim (Text.lowercase (word.getD ""))
  match words.lookup plain with
  | some environment => pure environment
  | none => do
    Traced.note (.unknownEnvironment plain)
    return .development

/-- The level at which a build reports if the settings give none. -/
def logLevel : Environment → LogLevel
  | .production => .default
  | _ => .verbose

end Environment

end DesignTokens
