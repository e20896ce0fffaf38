import DesignTokens.Toml.Scalar

/-!
# Reading TOML text

A document is a sequence of lines: a header that opens a table, a header that opens
one more table of an array, or an entry of the table that is open. No name may be
given twice, and a table is opened by a header at most once. A table or an array that
is written out as a value is closed: nothing can be added to it.
-/

namespace DesignTokens.Toml

def skipSpaces (chars : List Char) : List Char :=
  chars.dropWhile isSpace

/-- The text behind a comment, if one begins here. -/
def skipComment : List Char → Except Fault (List Char)
  | '#' :: rest =>
    if (rest.takeWhile (· ≠ '\n')).any isControl then .error .malformed
    else .ok (rest.dropWhile (· ≠ '\n'))
  | chars => .ok chars

/-- The text behind gaps and comments, of which there are at most `budget`. -/
def skipGaps : Nat → List Char → Except Fault (List Char)
  | 0, chars => .ok chars
  | budget + 1, chars =>
    match chars.dropWhile isGap with
    | '#' :: rest => do skipGaps budget (← skipComment ('#' :: rest))
    | rest => .ok rest

/-! ## Keys -/

def isBare (c : Char) : Bool :=
  c.isAlphanum || c = '-' || c = '_'

/-- One name of a key. -/
def readName (chars : List Char) : Except Fault (String × List Char) :=
  let found := match chars with
    | '"' :: rest => readQuotedLine rest
    | '\'' :: rest => readVerbatimLine rest
    | chars =>
      let bare := chars.takeWhile isBare
      if bare.isEmpty then none else some (String.ofList bare, chars.dropWhile isBare)
  match found with
  | some result => .ok result
  | none => .error .malformed

/-- Names with dots between them; `budget` bounds their number. -/
def readKey : Nat → List Char → Except Fault (Key × List Char)
  | 0, _ => .error .malformed
  | budget + 1, chars => do
    let (name, after) ← readName chars
    match skipSpaces after with
    | '.' :: rest => do
      let (names, after) ← readKey budget (skipSpaces rest)
      return (name :: names, after)
    | rest => return ([name], rest)

/-- A key is one of `closed` or lies below one. -/
def isClosed (closed : List Key) (key : Key) : Bool :=
  closed.any fun outer => outer.isPrefixOf key

/-! ## Values -/

def orMalformed {α : Type} (found : Option α) : Except Fault α :=
  match found with
  | some value => .ok value
  | none => .error .malformed

/-- A table written out, as far as it has been read. -/
structure Inline where
  table : Table
  closed : List Key

def Inline.add (inline : Inline) (key : Key) (item : Item) : Except Fault Inline := do
  let (outer, name) := Table.splitKey key
  if isClosed inline.closed key then
    throw .malformed
  let table ← orMalformed (Table.alter false (Table.add name item) outer inline.table)
  return ⟨table, if item.isComposite then key :: inline.closed else inline.closed⟩

mutual

/-- A value at the start of the text; `budget` bounds the number of parts. -/
def readValue : Nat → List Char → Except Fault (Item × List Char)
  | 0, _ => .error .malformed
  | budget + 1, chars =>
    match chars with
    | '[' :: rest => do
      let (items, after) ← readItems budget [] (← skipGaps budget rest)
      return (.array items, after)
    | '\x7b' :: rest =>
      match skipSpaces rest with
      | '\x7d' :: after => .ok (.table [], after)
      | body => do
        let (table, after) ← readPairs budget ⟨[], []⟩ body
        return (.table table, after)
    | c :: _ =>
      if c = '"' ∨ c = '\'' then do
        let (s, after) ← orMalformed (readText chars)
        return (.text s, after)
      else
        readScalar chars
    | [] => .error .malformed

/-- The items up to a closing bracket, behind which a comma may stand; `found` holds
the items before, last first. -/
def readItems : Nat → List Item → List Char → Except Fault (List Item × List Char)
  | 0, _, _ => .error .malformed
  | budget + 1, found, chars =>
    match chars with
    | ']' :: after => .ok (found.reverse, after)
    | _ => do
      let (item, after) ← readValue budget chars
      match ← skipGaps budget after with
      | ',' :: rest => readItems budget (item :: found) (← skipGaps budget rest)
      | ']' :: rest => return ((item :: found).reverse, rest)
      | _ => .error .malformed

/-- The entries up to a closing brace. -/
def readPairs : Nat → Inline → List Char → Except Fault (Table × List Char)
  | 0, _, _ => .error .malformed
  | budget + 1, inline, chars => do
    let (key, afterKey) ← readKey budget chars
    match afterKey with
    | '=' :: body => do
      let (item, after) ← readValue budget (skipSpaces body)
      let inline ← inline.add key item
      match skipSpaces after with
      | ',' :: rest => readPairs budget inline (skipSpaces rest)
      | '\x7d' :: rest => return (inline.table, rest)
      | _ => .error .malformed
    | _ => .error .malformed

end

/-! ## Documents -/

structure Document where
  root : Table := []
  /-- The key of the table that is open. -/
  header : Key := []
  /-- Tables that no header may open any more. -/
  opened : List Key := []
  /-- Tables that entries of the open table have created by their dots. They are
  opened as soon as another header comes. -/
  dotted : List Key := []
  closed : List Key := []

namespace Document

/-- Opens a table. -/
def openTable (doc : Document) (key : Key) : Except Fault Document := do
  let opened := doc.dotted ++ doc.opened
  if key ∈ opened ∨ isClosed doc.closed key then
    throw .malformed
  let root ← orMalformed (Table.alter true some key doc.root)
  return { doc with root, header := key, opened := key :: opened, dotted := [] }

/-- Opens one more table of an array. What was said about the table before it does not
hold for the new one. -/
def openElement (doc : Document) (key : Key) : Except Fault Document := do
  let opened := doc.dotted ++ doc.opened
  if isClosed doc.closed key then
    throw .malformed
  let (outer, name) := Table.splitKey key
  let root ← orMalformed (Table.alter true (Table.append name) outer doc.root)
  let kept (keys : List Key) : List Key := keys.filter fun other => !key.isPrefixOf other
  return { root, header := key, opened := key :: kept opened, dotted := [],
           closed := kept doc.closed }

/-- One more entry of the open table. -/
def add (doc : Document) (key : Key) (item : Item) : Except Fault Document := do
  let (outer, name) := Table.splitKey key
  let created := (List.range outer.length).map fun n => doc.header ++ outer.take (n + 1)
  if created.any (· ∈ doc.opened) ∨ isClosed doc.closed (doc.header ++ outer) then
    throw .malformed
  let root ← orMalformed
    (Table.alter true (Table.add name item) (doc.header ++ outer) doc.root)
  return { doc with
    root
    dotted := created ++ doc.dotted
    closed := if item.isComposite then (doc.header ++ key) :: doc.closed else doc.closed }

end Document

/-- One statement and what follows it on its line. -/
def readStatement (budget : Nat) (doc : Document) (chars : List Char) :
    Except Fault (Document × List Char) :=
  match chars with
  | '[' :: '[' :: rest => do
    let (key, after) ← readKey budget (skipSpaces rest)
    match after with
    | ']' :: ']' :: after => return (← doc.openElement key, after)
    | _ => throw .malformed
  | '[' :: rest => do
    let (key, after) ← readKey budget (skipSpaces rest)
    match after with
    | ']' :: after => return (← doc.openTable key, after)
    | _ => throw .malformed
  | '#' :: _ => .ok (doc, chars)
  | chars => do
    let (key, after) ← readKey budget chars
    match after with
    | '=' :: body => do
      let (item, after) ← readValue budget (skipSpaces body)
      return (← doc.add key item, after)
    | _ => throw .malformed

/-- The statements of a text; `budget` bounds the number of lines and of parts. -/
def readStatements : Nat → Document → List Char → Except Fault Document
  | 0, _, _ => .error .malformed
  | budget + 1, doc, chars =>
    match skipSpaces chars with
    | [] => .ok doc
    | '\n' :: rest => readStatements budget doc rest
    | body => do
      let (doc, after) ← readStatement budget doc body
      match ← skipComment (skipSpaces after) with
      | [] => return doc
      | '\n' :: rest => readStatements budget doc rest
      | _ => throw .malformed

/-- The table that a whole text stands for. Every line and every part takes at least
one character, so the length bounds their number. -/
def read (text : String) : Except Fault Table := do
  let chars := text.toList
  let doc ← readStatements (2 * chars.length + 2) {} chars
  return doc.root

end DesignTokens.Toml
