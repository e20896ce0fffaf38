import DesignTokens.Files.Tree
import DesignTokens.Settings.Reader
import DesignTokens.Yaml.Reader

/-!
# The settings file

The settings of a project are a YAML file in its root. A project without the file has
the default settings, and so has one whose file holds nothing.
-/

namespace DesignTokens.Settings

def fileName : String := "tokens.yaml"

/-- The data in a settings file. -/
def readFile (files : FileTree) (path : Path) : Except Error Data := do
  match files.readText path with
  | .error .notUtf8 => throw (.file .notUtf8)
  | .error _ => throw (.problem (.unreadableSettings path.shown) none)
  | .ok text =>
    match Yaml.read text with
    | .ok data => return data
    | .error .malformed => throw (.problem (.invalidYaml path.shown) none)
    | .error (.scalar fault) => throw (.shape fault)

/-- The settings of a project, from the file at `path` if one is given. Such a file
must exist. -/
def load (files : FileTree) (root : Path) (path : Option Path) (word : Option String) :
    Traced Settings := do
  let file := path.getD (root / fileName)
  if (files.at? file).isNone then
    if path.isSome then
      .fail (.problem (.noSettings file.shown) none)
    else do
      Traced.note .noSettings
      read word (.mapping [])
  else do
    let data ← readFile files file
    if !data.isSet then do
      Traced.note (.emptySettings file.shown)
      read word (.mapping [])
    else
      match data with
      | .mapping _ => read word data
      | _ => .fail (.problem (.settingsNotMapping file.shown) none)

end DesignTokens.Settings
