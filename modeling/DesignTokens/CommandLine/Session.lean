import DesignTokens.CommandLine.Markup
import DesignTokens.CommandLine.Request
import DesignTokens.Project.Build
import DesignTokens.Project.Validation
import DesignTokens.Settings.Loading
import DesignTokens.Version

/-!
# Sessions

A session answers one request: it prints, reports, may change files and ends with an
exit code. Notices are reported from a level on that the settings of a build decide; in
all other commands warnings and errors are reported.
-/

namespace DesignTokens.CommandLine

/-- What a session is given. -/
structure World where
  files : FileTree
  /-- The word that names the environment. -/
  word : Option String
  /-- What the program runs on. -/
  runtime : String

inductive Printed where
  | line (text : String)
  | table (title : String) (header : List String) (rows : List (List String))
deriving DecidableEq, Repr

/-- A cell with blanks up to a width. -/
def padded (width : Nat) (cell : String) : String :=
  String.ofList (cell.toList ++ List.replicate (width - cell.length) ' ')

/-- Printed text as lines. The columns of a table are as wide as their widest cell. -/
def Printed.lines : Printed → List String
  | .line text => [text]
  | .table title header rows =>
    let cells := header :: rows
    let widths := (List.range header.length).map fun column =>
      ((cells.map fun row => (row.getD column "").length).max?).getD 0
    title :: cells.map fun row => "  ".intercalate ((widths.zip row).map fun (width, cell) => padded width cell)

structure Outcome where
  exit : Nat := 0
  printed : List Printed := []
  reported : List String := []
  /-- A failure that no command expects. -/
  failure : Option Error := none
deriving Repr

/-- The exit code for a mistake in usage. -/
def usageExit : Nat := 2

/-- The messages of the notices at a level or above. -/
def messagesFrom (level : Level) (notices : List Notice) : List String :=
  (notices.filter fun notice => level.rank ≤ notice.level.rank).map Notice.message

/-- The level from which a build reports. -/
def reportLevel (settings : Settings) (verbose : Bool) : Level :=
  if verbose then .debug
  else
    match settings.build.logLevel with
    | .silent => .error
    | .default => .warning
    | .verbose => .info

namespace Outcome

def failed (error : Error) (reported : List String) : Outcome :=
  { exit := 1, reported, failure := some error }

end Outcome

/-- Prints the settings' problem, if `error` is one, or fails. -/
def settingsFailure (error : Error) (reported : List String) : Outcome :=
  match error with
  | .problem what _ =>
    if what.concernsSettings then
      { exit := 1, reported := reported ++ ["Error: " ++ error.message] }
    else
      .failed error reported
  | _ => .failed error reported

/-- Opens the project at a place and goes on with it and with what was reported. -/
def withProject (world : World) (place : Place)
    (body : Project → List String → Outcome × FileTree) : Outcome × FileTree :=
  let root := world.files.resolve (Path.ofText place.directory)
  let loaded := Settings.load world.files root (place.settings.map Path.ofText) world.word
  let reported := messagesFrom .warning loaded.notices
  match loaded.result with
  | .ok settings => body ⟨root, settings⟩ reported
  | .error error => (settingsFailure error reported, world.files)

/-- Prints marked texts, a line each, up to the first one that cannot be shown. -/
def printMarked (outcome : Outcome) : List String → Outcome
  | [] => outcome
  | text :: rest =>
    match Markup.plainText text with
    | .ok plain => printMarked { outcome with printed := outcome.printed ++ [.line plain] } rest
    | .error error => { outcome with exit := 1, failure := some error }

/-- The line about one tier. The time that a build took is written as `N`. -/
def resultLine (result : Project.TierResult) : String :=
  match result.error? with
  | none => "  [green]✓[/green] " ++ result.tier ++ " (" ++ toString result.files.length ++ " files, Nms)"
  | some error => "  [red]✗[/red] " ++ result.tier ++ ": " ++ error.message

/-- The summary of a build, as marked texts. -/
def summary (results : List Project.TierResult) : List String :=
  let failures := results.filter fun result => !result.succeeded
  let ending := if failures.isEmpty then [] else
    ["\n[red]" ++ toString failures.length ++ " of " ++ toString results.length ++
      " tier(s) failed[/red]"]
  ["", "[bold]Build summary[/bold]"] ++ results.map resultLine ++ ending

def build (world : World) (place : Place) (tier : String) (sequential verbose : Bool) :
    Outcome × FileTree :=
  withProject world place fun project reported =>
    if tier ≠ Request.everyTier ∧ (project.tier? tier).isNone then
      ({ exit := 1
         reported := reported ++ ["Unknown tier: " ++ tier,
           "Available tiers: " ++ ", ".intercalate project.tierNames] }, world.files)
    else
      let names := if tier = Request.everyTier then none else some [tier]
      let (work, files) := (project.buildAll names (if sequential then some false else none)).start
        world.files
      let reported := reported ++ messagesFrom (reportLevel project.settings verbose) work.notices
      match work.result with
      | .error error => (.failed error reported, files)
      | .ok results =>
        let exit := if results.all Project.TierResult.succeeded then 0 else 1
        (printMarked { exit, reported } (summary results), files)

/-- The row of a tier, with a dash for what is empty. -/
def tierRow (tier : Tier) : List String :=
  let orDash (text : String) := if text.isEmpty then "-" else text
  [tier.name, orDash tier.description, toString tier.sources.length,
    orDash (", ".intercalate (Entries.keys tier.modes))]

def tiers (world : World) (place : Place) : Outcome × FileTree :=
  withProject world place fun project reported =>
    match (Entries.values project.settings.tiers).mapM fun tier => (tierRow tier).mapM Markup.plainText with
    | .ok rows =>
      let header := ["Tier", "Description", "Sources", "Mode categories"]
      ({ reported, printed := [.table "Tiers" header rows] }, world.files)
    | .error error => (.failed error reported, world.files)

def index (world : World) (place : Place) (directory : String) : Outcome × FileTree :=
  withProject world place fun project reported =>
    let path := Path.ofText directory
    let (work, files) :=
      (Project.writeImportSheet path "" project.settings.css.breakpoints).start world.files
    let reported := reported ++ messagesFrom .warning work.notices
    match work.result with
    | .error error => (.failed error reported, files)
    | .ok none =>
      ({ exit := 1, reported := reported ++ ["No CSS files found in " ++ path.shown] }, files)
    | .ok (some sheet) => ({ reported, printed := [.line ("Generated " ++ sheet.shown)] }, files)

/-- A heading with a count and the findings below it, if there are any. -/
def findingLines (heading mark : String) (findings : List Project.Finding) : List Printed :=
  if findings.isEmpty then []
  else .line (heading ++ " (" ++ toString findings.length ++ "):") ::
    findings.map fun finding => .line ("  " ++ mark ++ " " ++ finding.message)

def validate (world : World) (place : Place) : Outcome × FileTree :=
  withProject world place fun project reported =>
    let work := project.validate world.files
    let reported := reported ++ messagesFrom .warning work.notices
    match work.result with
    | .error error => (.failed error reported, world.files)
    | .ok findings =>
      let errors := findings.filter Project.Finding.isError
      let warnings := findings.filter fun finding => !finding.isError
      let lines := findingLines "Errors" "✗" errors ++ findingLines "Warnings" "⚠" warnings
      if errors.isEmpty then
        ({ reported, printed := lines ++ [.line "Configuration is valid."] }, world.files)
      else
        ({ exit := 1, reported, printed := lines }, world.files)

/-- How the program is used. -/
def helpLines : List Printed :=
  ["Build CSS custom properties from DTCG design tokens.", "",
    "build [TIER] [--project DIR] [--config FILE] [--sequential] [--verbose]",
    "tiers [--project DIR] [--config FILE]",
    "index DIR [--project DIR] [--config FILE]",
    "validate [--project DIR] [--config FILE]"].map .line

/-- Answers the request that arguments make. -/
def run (world : World) (arguments : List String) : Outcome × FileTree :=
  match Request.ofArguments arguments with
  | none => ({ exit := usageExit }, world.files)
  | some .help => ({ printed := helpLines }, world.files)
  | some .version =>
    ({ printed := [.line (Version.distribution ++ " " ++ Version.own), .line world.runtime] },
      world.files)
  | some (.build place tier sequential verbose) => build world place tier sequential verbose
  | some (.tiers place) => tiers world place
  | some (.index place directory) => index world place directory
  | some (.validate place) => validate world place

end DesignTokens.CommandLine
