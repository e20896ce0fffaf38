import DesignTokens.Files.Search
import DesignTokens.Project.Basic
import DesignTokens.Stylesheet.Category

/-!
# Checking settings against files

A mode of a category that is not built and a mode whose file is missing are errors. A
pattern that finds no file is only worth a warning.
-/

namespace DesignTokens.Project

inductive Finding where
  | unknownCategory (tier category : String)
  | missingModeFile (tier category mode file : String)
  | noTokenFiles (tier pattern : String)
deriving DecidableEq, Repr

namespace Finding

def isError : Finding → Bool
  | .unknownCategory _ _ | .missingModeFile _ _ _ _ => true
  | .noTokenFiles _ _ => false

def message : Finding → String
  | .unknownCategory tier category =>
    "Tier '" ++ tier ++ "': unknown mode category '" ++ category ++ "'"
  | .missingModeFile tier category mode file =>
    "Tier '" ++ tier ++ "': " ++ category ++ " mode '" ++ mode ++ "' file not found: " ++ file
  | .noTokenFiles tier pattern => "Tier '" ++ tier ++ "': no token files match " ++ pattern

end Finding

/-- What is wrong with the modes of a tier. -/
def checkModes (project : Project) (files : FileTree) (tier : Tier) : List Finding :=
  tier.modes.flatMap fun (category, modes) =>
    if category ∈ Stylesheet.Category.all then
      modes.filterMap fun (mode, file) =>
        if (files.at? (project.root / file)).isSome then none
        else some (.missingModeFile tier.name category mode file)
    else
      [.unknownCategory tier.name category]

/-- The patterns of a tier that find no file. -/
def checkPatterns (project : Project) (files : FileTree) (tier : Tier) : Traced (List Finding) := do
  let found ← (tier.included ++ tier.sources).mapM fun pattern => do
    let matched ← files.expand project.root [pattern]
    return if matched.isEmpty then [Finding.noTokenFiles tier.name pattern] else []
  return found.flatten

/-- All findings about a project, tier by tier. -/
def validate (project : Project) (files : FileTree) : Traced (List Finding) := do
  let found ← project.settings.tiers.mapM fun (_, tier) => do
    let patterns ← project.checkPatterns files tier
    return project.checkModes files tier ++ patterns
  return found.flatten

end DesignTokens.Project
