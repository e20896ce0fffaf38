import DesignTokens.Files.Tree
import DesignTokens.Toml.Reader

/-!
# The version of this library

A source checkout names its version in its manifest. Without a manifest of this
library the version is the one that was installed, if any was.
-/

namespace DesignTokens.Version

/-- The name under which the library is distributed. -/
def distribution : String := "dtcg-css"

/-- The version of this library. -/
def own : String := "0.1.0"

/-- The version of a library that is neither checked out nor installed. -/
def unknown : String := "0.0.0"

/-- The version that the manifest of this library gives. A file that is not TOML or
that describes something else gives none. -/
def ofManifest (files : FileTree) (manifest : Path) : Except Error (Option Toml.Item) := do
  if files.isFile manifest then
    let text ← (files.readText manifest).mapError .file
    match Toml.read text with
    | .error .malformed => return none
    | .error .oversizedNumber => throw (.shape .oversizedNumber)
    | .ok table =>
      match (Entries.get? table "project").getD (.table []) with
      | .table project =>
        match Entries.get? project "name" with
        | some (.text name) =>
          return if name = distribution then Entries.get? project "version" else none
        | _ => return none
      | _ => throw (.shape .noMembers)
  else
    return none

/-- The version from the manifest if that gives one that is set, else the version that
is installed. -/
def current (files : FileTree) (manifest : Path) (installed : Option String) :
    Except Error Toml.Item := do
  match (← ofManifest files manifest).filter Toml.Item.isSet with
  | some version => return version
  | none => return .text (installed.getD unknown)

end DesignTokens.Version
