import DesignTokens.Entries
import DesignTokens.Yaml.Scalar

/-!
# Reading YAML text

The node of a text as plain data. A merge key takes in the entries of other mappings
before those of its own, so that its own entries win. Keys are scalars, and a key
that occurs again keeps its first place and takes the last value.
-/

namespace DesignTokens.Yaml

namespace Node

def kind? : Node → Option Kind
  | .scalar .open_ text => Kind.ofText text
  | .scalar .text _ => some .text
  | .scalar (.given tag) _ => Kind.ofTag? tag
  | .sequence (.given tag) _ => Kind.ofTag? tag
  | .sequence _ _ => some .sequence
  | .mapping (.given tag) _ => Kind.ofTag? tag
  | .mapping _ _ => some .mapping

/-- The scalar for a node that is a key. -/
def key (node : Node) : Except Fault Scalar :=
  match node, node.kind? with
  | .scalar _ text, some .value => .ok (.text text)
  | .scalar _ text, some kind => scalarOf kind text
  | _, _ => .error .malformed

def isMerge (node : Node) : Bool :=
  node.kind? == some .merge

/-- Entries of a mapping: those that are merged in, and its own. -/
structure Gathered where
  merged : List (Scalar × Data)
  own : List (Scalar × Data)

def Gathered.all (gathered : Gathered) : List (Scalar × Data) :=
  gathered.merged ++ gathered.own

/-- The entries of a set, without values. -/
def keysOnly (entries : List (Scalar × Data)) : Data :=
  .list (entries.map fun (key, _) => .scalar key)

/-- The entries of one-entry mappings as pairs. -/
def pairsOf (items : List Data) : Except Fault Data := do
  let pairs ← items.mapM fun item =>
    match item with
    | .mapping [(key, value)] => .ok (Data.list [.scalar key, value])
    | _ => .error .malformed
  return .list pairs

mutual

def data (node : Node) : Except Fault Data :=
  match node, node.kind? with
  | .scalar _ text, some kind => .scalar <$> scalarOf kind text
  | .sequence _ items, some .sequence => .list <$> dataItems items
  | .sequence _ items, some .pairs => do pairsOf (← dataItems items)
  | .mapping _ entries, some .mapping =>
    (fun gathered => .mapping (Entries.ofList gathered.all)) <$> gather entries
  | .mapping _ entries, some .set =>
    (fun gathered => keysOnly (Entries.ofList gathered.all)) <$> gather entries
  | _, _ => .error .malformed
termination_by structural node

def dataItems : List Node → Except Fault (List Data)
  | [] => .ok []
  | item :: rest => do
    let first ← data item
    let others ← dataItems rest
    return first :: others
termination_by structural items => items

/-- The entries of a mapping. -/
def gather : List (Node × Node) → Except Fault Gathered
  | [] => .ok ⟨[], []⟩
  | (name, value) :: rest =>
    if name.isMerge then do
      let taken ← mergedEntries value
      let others ← gather rest
      return { others with merged := taken ++ others.merged }
    else do
      let key ← name.key
      let content ← data value
      let others ← gather rest
      return { others with own := (key, content) :: others.own }
termination_by structural entries => entries

/-- The entries that the value of a merge key stands for: those of a mapping, or of
several mappings, of which the first wins. -/
def mergedEntries : Node → Except Fault (List (Scalar × Data))
  | .mapping _ entries => Gathered.all <$> gather entries
  | .sequence _ items => mergedItems items
  | .scalar _ _ => .error .malformed
termination_by structural node => node

def mergedItems : List Node → Except Fault (List (Scalar × Data))
  | [] => .ok []
  | item :: rest => do
    let first ← mergedMapping item
    let others ← mergedItems rest
    return others ++ first
termination_by structural items => items

def mergedMapping : Node → Except Fault (List (Scalar × Data))
  | .mapping _ entries => Gathered.all <$> gather entries
  | _ => .error .malformed
termination_by structural node => node

end

end Node

/-- The data in a text that holds at most one document; no document is null. -/
def read (text : String) : Except Fault Data := do
  match ← Node.ofText text with
  | some node => node.data
  | none => return .scalar .null

end DesignTokens.Yaml
