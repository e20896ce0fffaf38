import DesignTokens.CommandLine.Session

/-!
# The program

Reads the files that the arguments concern, answers the request and puts what has
changed back on the disk.
-/

open DesignTokens

namespace DesignTokens.Program

/-- Directories that are nested more deeply than this are not read. -/
def depthLimit : Nat := 64

/-- A file or directory on the disk and all that lies below it. -/
def readBelow : Nat → List String → FileTree → IO FileTree
  | 0, _, tree => return tree
  | depth + 1, names, tree => do
    let place := (← IO.currentDir) / ("/" ++ "/".intercalate names)
    if ← place.isDir then
      (← place.readDir).foldlM
        (fun tree entry => readBelow depth (names ++ [entry.fileName]) tree)
        (tree.put names .directory)
    else
      let bytes ← IO.FS.readBinFile place
      return tree.put names (match String.fromUTF8? bytes with
        | some text => .text text
        | none => .octets bytes.toList)

/-- The tree with the directories above `names`, all of which exist. -/
def withParents (names : List String) (tree : FileTree) : FileTree :=
  (List.range (names.length - 1)).foldl
    (fun tree count => tree.put (names.take (count + 1)) .directory) tree

/-- Adds what lies at a path on the disk, if anything does. -/
def addPath (tree : FileTree) (text : String) : IO FileTree := do
  let path := tree.resolve (Path.ofText text)
  let place := (← IO.currentDir) / path.shown
  if ← place.pathExists then
    readBelow depthLimit path.names (withParents path.names tree)
  else
    return tree

/-- Puts one entry on the disk. -/
def writeEntry (entry : List String × FileNode) : IO Unit := do
  let place := "/" ++ "/".intercalate entry.1
  match entry.2 with
  | .directory => IO.FS.createDirAll place
  | .text content => IO.FS.writeFile place content
  | .octets bytes => IO.FS.writeBinFile place ⟨bytes.toArray⟩

/-- Puts the entries that differ from before on the disk. -/
def writeChanges (before after : FileTree) : IO Unit :=
  (after.entries.filter fun entry => before.node? entry.1 ≠ some entry.2).forM writeEntry

def printOutcome (outcome : CommandLine.Outcome) : IO Unit := do
  (outcome.printed.flatMap CommandLine.Printed.lines).forM fun line => IO.println line
  outcome.reported.forM fun line => IO.eprintln line
  match outcome.failure with
  | some error => IO.eprintln error.message
  | none => return ()

end DesignTokens.Program

open DesignTokens.Program in
def main (arguments : List String) : IO UInt32 := do
  let here := (Path.ofText (← IO.currentDir).toString).names
  let start := withParents (here ++ [""]) { entries := [], here }
  let concerned := ((CommandLine.Request.ofArguments arguments).map
    CommandLine.Request.concerns).getD []
  let files ← concerned.foldlM addPath start
  let world : CommandLine.World :=
    { files, word := ← IO.getEnv "DTCG_CSS_ENV", runtime := "Lean 4" }
  let (outcome, after) := CommandLine.run world arguments
  writeChanges files after
  printOutcome outcome
  return outcome.exit.toUInt32
