import DesignTokens.Text.Stretch

/-!
# File paths

A path is a list of names, absolute or relative. Empty names and single dots say
nothing and are dropped when a path is read; a double dot is kept, since only the
files themselves can tell where it leads.
-/

namespace DesignTokens

structure Path where
  /-- The slashes in front of an absolute path; empty for a relative one. -/
  anchor : String
  names : List String
deriving DecidableEq, Repr, Inhabited

namespace Path

def isAbsolute (path : Path) : Bool :=
  !path.anchor.isEmpty

/-- The path that a text names. Two leading slashes are kept apart from one. -/
def ofText (text : String) : Path :=
  let slashes := (text.toList.takeWhile (· == '/')).length
  let anchor := if slashes = 0 then "" else if slashes = 2 then "//" else "/"
  ⟨anchor, (Text.fields '/' text).filter fun name => !name.isEmpty && name != "."⟩

def shown (path : Path) : String :=
  if path.anchor.isEmpty && path.names.isEmpty then
    "."
  else
    path.anchor ++ "/".intercalate path.names

/-- `path` below `base`; an absolute path stays where it is. -/
def below (base path : Path) : Path :=
  if path.isAbsolute then path else ⟨base.anchor, base.names ++ path.names⟩

instance : HDiv Path String Path := ⟨fun base text => base.below (ofText text)⟩

def name (path : Path) : String :=
  path.names.getLast?.getD ""

def parent (path : Path) : Path :=
  ⟨path.anchor, path.names.dropLast⟩

/-- The path beside this one with `ending` added to its name. -/
def withEnding (path : Path) (ending : String) : Path :=
  ⟨path.anchor, path.names.dropLast ++ [path.name ++ ending]⟩

/-- The names that lead from `base` to `path`, if it lies there. -/
def relativeTo? (path base : Path) : Option (List String) :=
  if path.anchor = base.anchor ∧ base.names.isPrefixOf path.names then
    some (path.names.drop base.names.length)
  else
    none

/-- The names of a path with every double dot taken back one name. -/
def simplify (path : Path) : Path :=
  ⟨path.anchor, path.names.foldl
    (fun names name => if name = ".." then names.dropLast else names ++ [name]) []⟩

/-- Order of names, code point by code point. -/
def before (a b : String) : Bool :=
  a.toList.lex b.toList fun c d => c.toNat < d.toNat

/-- Order of paths, name by name. -/
def le (a b : Path) : Bool :=
  before a.anchor b.anchor || (a.anchor == b.anchor && !b.names.lex a.names before)

end Path

end DesignTokens
