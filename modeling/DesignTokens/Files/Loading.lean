import DesignTokens.Dictionary
import DesignTokens.Files.Tree
import DesignTokens.Json.Reader
import DesignTokens.Resolution
import DesignTokens.Traced
import DesignTokens.Tree.Delegation
import DesignTokens.Tree.Merge

/-!
# Loading token files

Token files are laid over one another in order, and the tokens are taken from the
merged tree. A token's source is the last file that has a token at its path.
-/

namespace DesignTokens.Loading

open DesignTokens.Tree

/-- The tokens of one tree, group properties handed down. -/
def tokensOf (keys : Keys) (tree : Object) : Except Error (List Authored) :=
  authored keys [] (delegate keys tree)

/-- The tree in one file. -/
def readTree (files : FileTree) (path : Path) : Except Error Object := do
  let text ← (files.readText path).mapError .file
  let context : Context := { file := some path.shown }
  match Json.read text with
  | .ok (.object tree) => return tree
  | .ok _ => throw (.problem .notAnObject context)
  | .error .malformed => throw (.problem .invalidJson context)
  | .error .oversizedNumber => throw (.shape .oversizedNumber)

/-- What has been read from the files so far. -/
structure Loaded where
  tree : Object
  /-- The last file with a token at a path. -/
  sources : List (TokenPath × String)

/-- Lays one more tree over what has been read. -/
def Loaded.add (keys : Keys) (loaded : Loaded) (file : String) (tree : Object) :
    Except Error Loaded := do
  let tokens ← tokensOf keys tree
  return {
    tree := merge loaded.tree tree
    sources := tokens.foldl (fun sources token => Entries.insert sources token.path file)
      loaded.sources }

/-- All tokens of the merged tree, each with its source. -/
def Loaded.tokens (keys : Keys) (loaded : Loaded) : Except Error (List Authored) := do
  let tokens ← tokensOf keys loaded.tree
  return tokens.map fun token => { token with source := Entries.get? loaded.sources token.path }

def addFile (files : FileTree) (keys : Keys) (loaded : Loaded) (path : Path) : Traced Loaded := do
  let tree ← readTree files path
  let loaded ← loaded.add keys path.shown tree
  Traced.note (.loadedFile path.shown)
  return loaded

/-- The authored tokens of a list of files. -/
def readTokens (files : FileTree) (paths : List Path) (dtcg : Bool) : Traced (List Authored) := do
  let keys := Keys.of dtcg
  let loaded ← paths.foldlM (addFile files keys) ⟨[], []⟩
  loaded.tokens keys

/-- The dictionary of a list of files. -/
def dictionaryOfFiles (files : FileTree) (paths : List Path) (dtcg : Bool)
    (lead : Option String) : Traced Dictionary := do
  let tokens ← readTokens files paths dtcg
  let resolved ← (Resolution.resolve tokens lead : Except Error (List Token))
  return Dictionary.ofTokens resolved

/-- The dictionary of one tree. -/
def dictionaryOfTree (tree : Object) (dtcg : Bool) (lead : Option String) :
    Except Error Dictionary := do
  let tokens ← tokensOf (Keys.of dtcg) tree
  let resolved ← Resolution.resolve tokens lead
  return Dictionary.ofTokens resolved

end DesignTokens.Loading
