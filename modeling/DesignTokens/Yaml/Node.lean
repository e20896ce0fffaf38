import DesignTokens.Yaml.Layout

/-!
# YAML nodes

A document is one node: a scalar, a sequence or a mapping, each with a tag or none
yet. An alias stands for the node with its anchor, which must come before it; inside
that node itself it stands for an empty one of the same kind.
-/

namespace DesignTokens.Yaml

/-- The tag that was given for a node, if one was, and how its text was written. -/
inductive Tagging where
  /-- Nothing was given: the text itself says what it is. -/
  | open_
  /-- Nothing was given for quoted text. -/
  | text
  | given (tag : String)
deriving DecidableEq, Repr

inductive Node where
  | scalar (tagging : Tagging) (text : String)
  | sequence (tagging : Tagging) (items : List Node)
  | mapping (tagging : Tagging) (entries : List (Node × Node))
deriving Repr

namespace Node

/-- A node without any text. -/
def empty : Node := .scalar .open_ ""

/-- What is left to read, the tag handles of the document and the nodes with an
anchor. -/
structure Source where
  tokens : List Token
  handles : List (String × String)
  anchors : List (String × Node)

abbrev Reading := StateT Source (Except Fault)

/-- Handles that every document knows. -/
def standardHandles : List (String × String) := [("!", "!"), ("!!", "tag:yaml.org,2002:")]

def next : Reading Token := do
  return (← get).tokens.headD .streamEnd

def skip : Reading Unit :=
  modify fun s => { s with tokens := s.tokens.drop 1 }

def take : Reading Token := do
  let token ← next
  skip
  return token

def expect (token : Token) : Reading Unit := do
  if (← take) ≠ token then
    throw .malformed

/-- An anchor that follows here. -/
def takeAnchor : Reading (Option String) := do
  match ← next with
  | .anchor name => do
    skip
    return some name
  | _ => return none

/-- A tag that follows here, its handle written out. -/
def takeTag : Reading (Option String) := do
  match ← next with
  | .tag none suffix => do
    skip
    return some suffix
  | .tag (some handle) suffix => do
    skip
    match (← get).handles.lookup handle with
    | some start => return some (start ++ suffix)
    | none => throw .malformed
  | _ => return none

/-- An anchor and a tag in either order. -/
def takeProperties : Reading (Option String × Option String) := do
  match ← takeAnchor with
  | some name => return (some name, ← takeTag)
  | none => do
    match ← takeTag with
    | some tag => return (← takeAnchor, some tag)
    | none => return (none, none)

/-- The tag of a node; a single exclamation mark leaves it open. -/
def taggingOf (tag : Option String) (isQuoted : Bool) : Tagging :=
  match tag with
  | none => if isQuoted then .text else .open_
  | some "!" => .open_
  | some tag => .given tag

/-- Remembers a node under its anchor. -/
def remember (anchor : Option String) (node : Node) : Reading Unit :=
  match anchor with
  | some name => modify fun s => { s with anchors := Entries.insert s.anchors name node }
  | none => pure ()

/-- Reads the content of a node that may have an anchor, which must be new. `inside`
stands for the node within its own content. -/
def anchored (anchor : Option String) (inside : Node) (content : Reading Node) :
    Reading Node := do
  let known := (← get).anchors
  if anchor.any (Entries.contains known) then
    throw .malformed
  remember anchor inside
  let node ← content
  remember anchor node
  return node

/-- A node without content, which needs an anchor or a tag. -/
def readEmpty (anchor tag : Option String) : Reading Node :=
  if anchor.isNone && tag.isNone then
    throw .malformed
  else
    anchored anchor empty (pure (.scalar (taggingOf tag false) ""))

/-- Where a node stands: in a block, in a block right below a key, or in brackets. -/
inductive Position where
  | block
  | belowKey
  | flow
deriving DecidableEq, Repr

mutual

def read (position : Position) : Nat → Reading Node
  | 0 => throw .malformed
  | fuel + 1 => do
    match ← next with
    | .alias name => do
      skip
      match Entries.get? (← get).anchors name with
      | some node => return node
      | none => throw .malformed
    | _ => do
      let (anchor, tag) ← takeProperties
      let tagging := taggingOf tag false
      let token ← next
      match token with
      | .blockEntry =>
        if position = .belowKey then
          anchored anchor (.sequence tagging []) (.sequence tagging <$> readItems false fuel)
        else
          readEmpty anchor tag
      | .scalar text isPlain => do
        skip
        anchored anchor empty (pure (.scalar (taggingOf tag !isPlain) text))
      | .flowSequenceStart => do
        skip
        anchored anchor (.sequence tagging []) (.sequence tagging <$> readFlowItems true fuel)
      | .flowMappingStart => do
        skip
        anchored anchor (.mapping tagging []) (.mapping tagging <$> readFlowEntries true fuel)
      | .blockSequenceStart =>
        if position = .flow then
          readEmpty anchor tag
        else do
          skip
          anchored anchor (.sequence tagging []) (.sequence tagging <$> readItems true fuel)
      | .blockMappingStart =>
        if position = .flow then
          readEmpty anchor tag
        else do
          skip
          anchored anchor (.mapping tagging []) (.mapping tagging <$> readEntries fuel)
      | _ => readEmpty anchor tag

/-- Items of a sequence in a block. One that is `closed` has an indentation of its
own, which ends with it. -/
def readItems (closed : Bool) : Nat → Reading (List Node)
  | 0 => throw .malformed
  | fuel + 1 => do
    match ← next with
    | .blockEntry => do
      skip
      let endsHere := match ← next with
        | .blockEntry | .blockEnd => true
        | .key | .value => !closed
        | _ => false
      let item ← if endsHere then pure empty else read .block fuel
      return item :: (← readItems closed fuel)
    | _ => do
      if closed then
        expect .blockEnd
      return []

/-- Entries of a mapping in a block. -/
def readEntries : Nat → Reading (List (Node × Node))
  | 0 => throw .malformed
  | fuel + 1 => do
    match ← next with
    | .key => do
      skip
      let key ← readBelowKey fuel
      let value ← match ← next with
        | .value => do
          skip
          readBelowKey fuel
        | _ => pure empty
      return (key, value) :: (← readEntries fuel)
    | _ => do
      expect .blockEnd
      return []

/-- A key or a value of a mapping in a block, which may be left out. -/
def readBelowKey : Nat → Reading Node
  | 0 => throw .malformed
  | fuel + 1 => do
    match ← next with
    | .key | .value | .blockEnd => return empty
    | _ => read .belowKey fuel

/-- Items between brackets, the first one without a comma before it. -/
def readFlowItems (isFirst : Bool) : Nat → Reading (List Node)
  | 0 => throw .malformed
  | fuel + 1 => do
    if (← next) = .flowSequenceEnd then
      skip
      return []
    if !isFirst then
      expect .flowEntry
    match ← next with
    | .flowSequenceEnd => do
      skip
      return []
    | .key => do
      skip
      let key ← readFlowPart .flowSequenceEnd true fuel
      let value ← readFlowValue .flowSequenceEnd fuel
      return .mapping .open_ [(key, value)] :: (← readFlowItems false fuel)
    | _ => do
      let item ← read .flow fuel
      return item :: (← readFlowItems false fuel)

/-- Entries between braces, the first one without a comma before it. -/
def readFlowEntries (isFirst : Bool) : Nat → Reading (List (Node × Node))
  | 0 => throw .malformed
  | fuel + 1 => do
    if (← next) = .flowMappingEnd then
      skip
      return []
    if !isFirst then
      expect .flowEntry
    match ← next with
    | .flowMappingEnd => do
      skip
      return []
    | .key => do
      skip
      let key ← readFlowPart .flowMappingEnd true fuel
      let value ← readFlowValue .flowMappingEnd fuel
      return (key, value) :: (← readFlowEntries false fuel)
    | _ => do
      let key ← read .flow fuel
      return (key, empty) :: (← readFlowEntries false fuel)

/-- A key or a value between brackets, which may be left out. -/
def readFlowPart (closing : Token) (isKey : Bool) : Nat → Reading Node
  | 0 => throw .malformed
  | fuel + 1 => do
    let token ← next
    if token = .flowEntry ∨ token = closing ∨ (isKey ∧ token = .value) then
      return empty
    else
      read .flow fuel

/-- The value of a key between brackets. -/
def readFlowValue (closing : Token) : Nat → Reading Node
  | 0 => throw .malformed
  | fuel + 1 => do
    match ← next with
    | .value => do
      skip
      readFlowPart closing false fuel
    | _ => return empty

end

/-- The node of a document that begins here. -/
def readDocument (fuel : Nat) : Reading Node := do
  match ← next with
  | .versionDirective _ | .tagDirective _ _ | .otherDirective | .documentStart
  | .documentEnd | .streamEnd => return empty
  | _ => read .block fuel

/-- Reads the directives before a document. -/
def readDirectives : Nat → Bool → List (String × String) → Reading Unit
  | 0, _, _ => throw .malformed
  | fuel + 1, hasVersion, handles => do
    match ← next with
    | .versionDirective major => do
      skip
      if hasVersion || major ≠ 1 then
        throw .malformed
      readDirectives fuel true handles
    | .tagDirective handle start => do
      skip
      if Entries.contains handles handle then
        throw .malformed
      readDirectives fuel hasVersion (handles ++ [(handle, start)])
    | .otherDirective => do
      skip
      readDirectives fuel hasVersion handles
    | _ => modify fun s => { s with handles := handles ++ standardHandles }

/-- The only document of a stream, if there is one. -/
def readStream (fuel : Nat) : Reading (Option Node) := do
  let found ← match ← next with
    | .streamEnd => pure none
    | .versionDirective _ | .tagDirective _ _ | .otherDirective | .documentStart => do
      readDirectives fuel false []
      expect .documentStart
      some <$> readDocument fuel
    | _ => some <$> read .block fuel
  modify fun s => { s with tokens := s.tokens.dropWhile (· = .documentEnd) }
  expect .streamEnd
  return found

/-- The node of a text, if the text holds one. No step of reading takes more than
three rounds for a token. -/
def ofText (text : String) : Except Fault (Option Node) := do
  let tokens ← tokens text
  (readStream (3 * tokens.length + 10)).run' ⟨tokens, standardHandles, []⟩

end Node

end DesignTokens.Yaml
