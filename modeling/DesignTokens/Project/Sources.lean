import DesignTokens.Files.Loading
import DesignTokens.Files.Search
import DesignTokens.Project.Basic

/-!
# The tokens of a tier

A tier refers to the tokens of some files and writes out those of others. A file that
is included is never written out, and the file of a mode only if it is asked for by
its path. A token belongs to the last file that defines it.
-/

namespace DesignTokens.Project

/-- Tokens that were loaded together, and those among them that are written out. -/
structure TierTokens where
  dictionary : Dictionary
  output : List Token

/-- The files of all modes of a tier. -/
def modeFiles (project : Project) (files : FileTree) (tier : Tier) : List Path :=
  tier.modes.flatMap fun (_, modes) => modes.map fun (_, file) =>
    files.resolve (project.root / file)

/-- The files whose tokens are only referred to, and the files whose tokens are written
out. -/
def sourceFiles (project : Project) (files : FileTree) (tier : Tier)
    (patterns : List String) (extra : List Path) (reference : List String) :
    Traced (List Path × List Path) := do
  let included ← files.expand project.root (tier.included ++ reference)
  let found ← files.expand project.root patterns
  let modes := project.modeFiles files tier
  let sources := found.filter fun path => files.resolve path ∉ modes ∧ path ∉ included
  return (included, sources ++ extra)

/-- Loads the included files of a tier, those that `reference` adds, those that
`patterns` find and the `extra` ones. -/
def loadTier (project : Project) (files : FileTree) (tier : Tier) (patterns : List String)
    (extra : List Path) (reference : List String) : Traced TierTokens := do
  let (included, sources) ← project.sourceFiles files tier patterns extra reference
  let dictionary ← Loading.dictionaryOfFiles files (included ++ sources)
    project.settings.build.dtcg project.settings.css.lead
  let written := sources.map Path.shown
  let output := dictionary.tokens.filter fun token =>
    match token.source with
    | some file => written.contains file
    | none => false
  Traced.note (.loadedTier tier.name dictionary.size output.length)
  return ⟨dictionary, output⟩

end DesignTokens.Project
