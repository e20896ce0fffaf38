import DesignTokens.Settings.Basic
import DesignTokens.Files.Path

/-!
# Projects

A project is a directory with settings. Its tiers are written below the directories
for stylesheets and for documents of a design tool, each tier under its own name.
-/

namespace DesignTokens

structure Project where
  root : Path
  settings : Settings

namespace Project

def tier? (project : Project) (name : String) : Option Tier :=
  Entries.get? project.settings.tiers name

/-- The names by which tiers are built. -/
def tierNames (project : Project) : List String :=
  Entries.keys project.settings.tiers

/-- The directory for the stylesheets of a tier. -/
def sheetDirectory (project : Project) (tier : Tier) : Path :=
  project.root / project.settings.css.buildPath / tier.name

/-- The directory for the documents of a tier for a design tool. -/
def figmaDirectory (project : Project) (tier : Tier) : Path :=
  project.root / project.settings.figma.buildPath / tier.name

end Project

end DesignTokens
