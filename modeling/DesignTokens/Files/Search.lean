import DesignTokens.Files.Pattern
import DesignTokens.Files.Tree
import DesignTokens.Traced

/-!
# Searching the file tree

The files that a pattern stands for, in the order of their paths, and the stylesheets
below a directory.
-/

namespace DesignTokens

namespace Path

/-- The path one name further. -/
def child (path : Path) (name : String) : Path :=
  ⟨path.anchor, path.names ++ [name]⟩

end Path

namespace FileTree

/-- The names below the directory at a path that lead to entries, none of them with a
leading dot. -/
def visibleBelow (files : FileTree) (path : Path) : List (List String) :=
  match files.locate path with
  | .ok place => files.entries.filterMap fun (names, _) =>
      let below := names.drop place.length
      if place.isPrefixOf names ∧ below ≠ [] ∧ !below.any Step.isHidden then some below else none
  | .error _ => []

/-- The names right below the directory at a path. -/
def childNames (files : FileTree) (path : Path) : List String :=
  match files.locate path with
  | .ok place => files.namesIn place
  | .error _ => []

/-- The paths to which a step leads from `path`. -/
def follow (files : FileTree) (path : Path) : Step → List Path
  | .name text =>
    if text = "." then
      if files.isDirectory path then [path] else []
    else
      let next := path.child text
      if (files.at? next).isSome then [next] else []
  | .wild hidden parts =>
    ((files.childNames path).filter (Step.covers hidden parts)).map path.child
  | .anyDepth =>
    if files.isDirectory path then
      path :: (files.visibleBelow path).map fun below => ⟨path.anchor, path.names ++ below⟩
    else
      []
  | .directory => if files.isDirectory path then [path] else []

/-- All paths that a pattern stands for, directories among them, in order. -/
def matching (files : FileTree) (pattern : Pattern) : List Path :=
  let found := pattern.steps.foldl (fun paths step => paths.flatMap fun path => files.follow path step)
    [⟨pattern.anchor, []⟩]
  found.mergeSort Path.le

/-- The pattern that a text stands for in a directory. Only an absolute pattern is
taken as it is written; any other one is normalized together with the directory. -/
def patternIn (root : Path) (text : String) : Pattern :=
  let own := Path.ofText text
  if own.isAbsolute then Pattern.ofText own.anchor text
  else Pattern.ofText root.anchor (root.below own).shown

/-- `more` added to `paths`, each path once. -/
def addNew (paths more : List Path) : List Path :=
  more.foldl (fun paths path => if path ∈ paths then paths else paths ++ [path]) paths

/-- The files that patterns stand for, pattern by pattern and each file once. A pattern
to which nothing at all corresponds is reported. -/
def expand (files : FileTree) (root : Path) (patterns : List String) : Traced (List Path) :=
  patterns.foldlM (fun found text => do
    let reached := files.matching (patternIn root text)
    if reached.isEmpty then
      Traced.note (.noTokenFiles text)
    return addNew found (reached.filter files.isFile)) []

/-- The stylesheets below a directory, as sorted texts from there. Files named
`excluded` do not count. A missing directory is reported and holds none. -/
def stylesheets (files : FileTree) (directory : Path) (excluded : String) : Traced (List String) := do
  match files.isDirectory directory, files.locate directory with
  | true, .ok place =>
    let found := (files.filesBelow place).filterMap fun (names, _) =>
      let name := names.getLast?.getD ""
      if name.endsWith ".css" && name != excluded then some ("/".intercalate names) else none
    return found.mergeSort fun a b => decide (a ≤ b)
  | _, _ =>
    Traced.note (.unreadableDirectory directory.shown)
    return []

end FileTree

end DesignTokens
