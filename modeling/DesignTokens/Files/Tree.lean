import DesignTokens.Entries
import DesignTokens.Error
import DesignTokens.Files.Path
import DesignTokens.Text.Stretch

/-!
# File trees

The files that a project reads and writes, as one value. Every file and directory is
an entry under its names from the root; the root itself is always there. A relative
path starts at the working directory. Reading and writing fail as a file system fails:
on a missing file, on a directory in place of a file and on a file in place of a
directory.
-/

namespace DesignTokens

inductive FileNode where
  | directory
  | text (content : String)
  /-- A file that does not hold UTF-8 text. -/
  | octets (bytes : List UInt8)
deriving DecidableEq, Repr

structure FileTree where
  entries : List (List String × FileNode)
  /-- The names of the working directory. -/
  here : List String := []
deriving Repr, Inhabited

namespace FileTree

def node? (tree : FileTree) (names : List String) : Option FileNode :=
  if names.isEmpty then some .directory else Entries.get? tree.entries names

/-- The names to which `names` lead from the directory at `place`. All but the last
must be directories; the last need not exist. -/
def locateFrom (tree : FileTree) (place : List String) :
    List String → Except FileFault (List String)
  | [] => .ok place
  | name :: rest =>
    match tree.node? place with
    | some .directory =>
      locateFrom tree (if name = ".." then place.dropLast else place ++ [name]) rest
    | some _ => .error .notDirectory
    | none => .error .notFound

/-- Where a path starts. -/
def startOf (tree : FileTree) (path : Path) : List String :=
  if path.isAbsolute then [] else tree.here

def locate (tree : FileTree) (path : Path) : Except FileFault (List String) :=
  tree.locateFrom (tree.startOf path) path.names

/-- The absolute path with every double dot taken back one name. -/
def resolve (tree : FileTree) (path : Path) : Path :=
  if path.isAbsolute then path.simplify else (Path.mk "/" (tree.here ++ path.names)).simplify

/-- What lies at a path, if anything does. -/
def at? (tree : FileTree) (path : Path) : Option FileNode :=
  match tree.locate path with
  | .ok names => tree.node? names
  | .error _ => none

def isDirectory (tree : FileTree) (path : Path) : Bool :=
  match tree.at? path with
  | some .directory => true
  | _ => false

def isFile (tree : FileTree) (path : Path) : Bool :=
  match tree.at? path with
  | some (.text _) | some (.octets _) => true
  | _ => false

/-- The text of a file, every line end read as a line feed. -/
def readText (tree : FileTree) (path : Path) : Except FileFault String := do
  let names ← tree.locate path
  match tree.node? names with
  | none => throw .notFound
  | some .directory => throw .isDirectory
  | some (.octets _) => throw .notUtf8
  | some (.text content) => return String.ofList (Text.unifyNewlines content.toList)

/-- Names of the entries right below a directory. -/
def namesIn (tree : FileTree) (place : List String) : List String :=
  tree.entries.filterMap fun (names, _) =>
    if names.dropLast = place then names.getLast? else none

/-- The files below a directory, as names from there. -/
def filesBelow (tree : FileTree) (place : List String) : List (List String × FileNode) :=
  tree.entries.filterMap fun (names, node) =>
    if node ≠ .directory ∧ place.isPrefixOf names then
      some (names.drop place.length, node)
    else
      none

def put (tree : FileTree) (names : List String) (node : FileNode) : FileTree :=
  { tree with entries := Entries.insert tree.entries names node }

/-- The tree without what lies at and below `names`. -/
def removeAt (tree : FileTree) (names : List String) : FileTree :=
  { tree with entries := tree.entries.filter fun entry => !names.isPrefixOf entry.1 }

/-- Creates the directories through which `names` lead from `place`, those that are
missing, up to the first place where something else is. `created` says that one was
missing on the way there: from then on the directories are made one by one, and whatever
stands in the place of one is there already. -/
def makeFrom (tree : FileTree) (created : Bool) (place : List String) :
    List String → Except FileFault Unit × FileTree
  | [] => (.ok (), tree)
  | name :: rest =>
    if name = ".." then
      makeFrom tree created place.dropLast rest
    else
      let here := place ++ [name]
      match tree.node? here with
      | some .directory => makeFrom tree created here rest
      | some _ => (.error (if rest.isEmpty || created then .exists else .notDirectory), tree)
      | none => makeFrom (tree.put here .directory) true here rest

/-- Creates a directory at `path` and at everything above it. After a failure the
directories that were created remain. -/
def makeAll (tree : FileTree) (path : Path) : Except FileFault Unit × FileTree :=
  tree.makeFrom false (tree.startOf path) path.names

/-- The tree with a directory at `path` and at everything above it. -/
def makeDirectories (tree : FileTree) (path : Path) : Except FileFault FileTree :=
  let (done, made) := tree.makeAll path
  done.map fun _ => made

def writeNode (tree : FileTree) (path : Path) (node : FileNode) : Except FileFault FileTree := do
  let names ← tree.locate path
  match tree.node? names.dropLast with
  | some .directory =>
    if tree.node? names = some .directory then
      throw .isDirectory
    else
      return tree.put names node
  | some _ => throw .notDirectory
  | none => throw .notFound

def writeText (tree : FileTree) (path : Path) (content : String) : Except FileFault FileTree :=
  tree.writeNode path (.text content)

/-- Moves the file at `source` onto `target`, where no directory may be. -/
def replace (tree : FileTree) (source target : Path) : Except FileFault FileTree := do
  let old ← tree.locate source
  let new ← tree.locate target
  match tree.node? old with
  | none => throw .notFound
  | some node =>
    if tree.node? new = some .directory then
      throw .isDirectory
    else
      return (tree.removeAt old).put new node

/-- The ending of the file beside a target that is written first. -/
def temporaryEnding : String := ".tmp"

/-- Writes a file as a whole or not at all: the text goes into a file beside the
target, which then takes the target's place. Missing directories are created. The
tree after a failure has no such file left. -/
def writeWhole (tree : FileTree) (path : Path) (content : String) : Except FileFault Unit × FileTree :=
  match tree.makeAll path.parent with
  | (.error fault, made) => (.error fault, made)
  | (.ok _, made) =>
    let temporary := path.withEnding temporaryEnding
    match made.writeText temporary content with
    | .error fault => (.error fault, made)
    | .ok written =>
      match written.replace temporary path with
      | .ok done => (.ok (), done)
      | .error fault =>
        match written.locate temporary with
        | .ok names => (.error fault, written.removeAt names)
        | .error _ => (.error fault, written)

end FileTree

end DesignTokens
