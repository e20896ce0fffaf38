import DesignTokens.Files.Search
import DesignTokens.Project.Work
import DesignTokens.Stylesheet.ImportSheet

/-!
# Import sheets of directories

The stylesheets below a directory are imported by one more sheet beside them. A
directory without stylesheets gets none.
-/

namespace DesignTokens.Project

/-- The name of a sheet that imports the others. -/
def importSheetName : String := "index.css"

/-- The text of the sheet for a directory, if it holds stylesheets. The tier is named
after the directory if it has no name of its own. -/
def importSheet (files : FileTree) (directory : Path) (tier : String) (table : List Breakpoint) :
    Traced (Option String) := do
  let sheets ← files.stylesheets directory importSheetName
  if sheets.isEmpty then
    Traced.note (.noStylesheets directory.shown)
    return none
  else
    let name := if tier.isEmpty then directory.name else tier
    return some (← Stylesheet.ImportSheet.text sheets name table)

/-- Writes the sheet for a directory and gives its path. -/
def writeImportSheet (directory : Path) (tier : String) (table : List Breakpoint) :
    Work (Option Path) := do
  match ← Work.reading fun files => importSheet files directory tier table with
  | none => return none
  | some text =>
    let path := directory / importSheetName
    Work.write path text
    Work.note (.wroteIndex path.shown (Text.count "@import".toList text.toList))
    return some path

end DesignTokens.Project
