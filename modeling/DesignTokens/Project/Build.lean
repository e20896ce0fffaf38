import DesignTokens.Project.Export
import DesignTokens.Project.Sheets
import DesignTokens.Project.Sources
import DesignTokens.Stylesheet.Category

/-!
# Building tiers

A tier is built category by category: one file for its primitives and one for every
mode of a category that has modes, one file for every other category, then the sheet
that imports them all, and the documents for a design tool if they are asked for. A
tier that fails leaves what it has written and does not stop the others.
-/

namespace DesignTokens.Project

open Stylesheet

/-- Writes one file of a tier. -/
def writeSheet (project : Project) (path : Path) (text : String) : Work Path := do
  Work.write path text
  if project.settings.build.logLevel = .verbose then
    match path.relativeTo? project.root with
    | some names => Work.note (.wrote ("/".intercalate names))
    | none => throw (.shape (.outsideProject path.shown))
  return path

/-- The file of a stylesheet below a directory. -/
def sheetPath (directory : Path) (name : String) : Path :=
  directory / (name ++ ".css")

/-- The file for the primitives of a category with modes. -/
def buildPrimitives (project : Project) (tier : Tier) (category : String) : Work Path := do
  let text ← Work.reading fun files => do
    let tokens ← project.loadTier files tier tier.primitiveSources [] []
    project.settings.assembly.categoryText category tokens.output tokens.dictionary
  project.writeSheet (sheetPath (project.sheetDirectory tier / category) "primitive") text

/-- The file for one mode of a category. -/
def buildMode (project : Project) (tier : Tier) (category mode file : String) : Work Path := do
  let path := project.root / file
  let text ← Work.reading fun files => do
    if (files.at? path).isNone then
      throw (.problem (.missingModeFile mode)
        (some { file := some path.shown, tier := some tier.name, category := some category }))
    let tokens ← project.loadTier files tier [] [path] tier.primitiveSources
    project.settings.assembly.modeText category mode tokens.output tokens.dictionary
  project.writeSheet (sheetPath (project.sheetDirectory tier / category) mode) text

/-- The files of a category with modes. -/
def buildModes (project : Project) (tier : Tier) (category : String)
    (modes : List (String × String)) : Work (List Path) := do
  let primitives ← project.buildPrimitives tier category
  let others ← modes.mapM fun (mode, file) => project.buildMode tier category mode file
  return primitives :: others

/-- The file of a category without modes. -/
def buildCategory (project : Project) (tier : Tier) (tokens : TierTokens) (category : String) :
    Work Path := do
  let text ← Work.reading fun _ =>
    project.settings.assembly.categoryText category tokens.output tokens.dictionary
  project.writeSheet (sheetPath (project.sheetDirectory tier) category) text

/-- Builds a tier and gives the files in the order in which they were written. -/
def buildFiles (project : Project) (tier : Tier) : Work (List Path) := do
  let moded ← tier.modes.mapM fun (category, modes) => project.buildModes tier category modes
  let tokens ← Work.reading fun files => project.loadTier files tier tier.sources [] []
  let plain := Category.all.filter fun category => !Entries.contains tier.modes category
  let sheets ← plain.mapM (project.buildCategory tier tokens)
  let importing ← writeImportSheet (project.sheetDirectory tier) tier.name
    project.settings.css.breakpoints
  let documents ← if project.settings.figma.enabled then
      exportTokens tokens.dictionary tokens.output (project.figmaDirectory tier)
        project.settings.build.dtcg
    else
      pure []
  return moded.flatten ++ sheets ++ importing.toList ++ documents

/-- Builds the tier of some name. -/
def build (project : Project) (name : String) : Work (List Path) :=
  match project.tier? name with
  | some tier => project.buildFiles tier
  | none => throw (.problem (.unknownTier name) none)

/-- What became of a tier: the files that were written, or why it failed. -/
structure TierResult where
  tier : String
  outcome : Except Error (List Path)

namespace TierResult

def succeeded (result : TierResult) : Bool :=
  result.outcome.isOk

/-- The files of a tier that was built. -/
def files (result : TierResult) : List Path :=
  result.outcome.toOption.getD []

def error? (result : TierResult) : Option Error :=
  match result.outcome with
  | .ok _ => none
  | .error error => some error

end TierResult

/-- Builds a tier and reports what became of it. -/
def buildTier (project : Project) (name : String) : Work TierResult := do
  let outcome ← Work.attempt (project.build name)
  Work.note (match outcome with
    | .ok _ => .builtTier name
    | .error error => .failedTier name error)
  return ⟨name, outcome⟩

/-- Builds several tiers, all of them if no names are given. If they are built side by
side, a name that is given twice has one result, the last one. -/
def buildAll (project : Project) (names : Option (List String)) (parallel : Option Bool) :
    Work (List TierResult) := do
  let chosen := names.getD project.tierNames
  let results ← chosen.mapM project.buildTier
  if parallel.getD project.settings.build.parallel then
    return chosen.filterMap fun name => results.reverse.find? fun result => result.tier == name
  else
    return results

end DesignTokens.Project
