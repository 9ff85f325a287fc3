import SchemaLedger.Yaml.Tag
import SchemaLedger.Yaml.Token

/-!
# Nodes of a settings document

A document as a graph of nodes: scalars, sequences and mappings with their tags.
An alias is one more reference to the node that it stands for, so a node may be
reached in several ways and even from within itself.
-/

namespace SchemaLedger
namespace Yaml

/-- Nodes are known by numbers, because what is said of a node later holds
wherever it is reached from. -/
abbrev NodeId := Nat

abbrev Entry := NodeId × NodeId

inductive Content
  | scalar (text : Text)
  | sequence (items : List NodeId)
  | mapping (entries : List Entry)
deriving DecidableEq, Repr

structure Node where
  tag : Tag
  content : Content
deriving DecidableEq, Repr

/-- What stands where nothing is written. -/
def Node.empty : Node := ⟨.null, .scalar []⟩

structure Graph where
  nodes : Array Node := #[]
deriving DecidableEq, Repr

namespace Graph

def node (g : Graph) (n : NodeId) : Node :=
  g.nodes.getD n .empty

def tag (g : Graph) (n : NodeId) : Tag :=
  (g.node n).tag

def content (g : Graph) (n : NodeId) : Content :=
  (g.node n).content

def entries (g : Graph) (n : NodeId) : List Entry :=
  match g.content n with
  | .mapping entries => entries
  | .scalar _ | .sequence _ => []

def fresh (g : Graph) : NodeId :=
  g.nodes.size

def add (g : Graph) (node : Node) : Graph :=
  ⟨g.nodes.push node⟩

def setContent (g : Graph) (n : NodeId) (content : Content) : Graph :=
  ⟨g.nodes.setIfInBounds n { g.node n with content }⟩

def setTag (g : Graph) (n : NodeId) (tag : Tag) : Graph :=
  ⟨g.nodes.setIfInBounds n { g.node n with tag }⟩

end Graph

/-! ## Reading tokens -/

/-- The tokens that are left, why there are no more behind them, what the handles
of tags stand for, and the nodes so far, some of them with anchors. -/
structure Reading where
  tokens : List Token
  stop : Option Stop
  handles : List (Text × Text) := []
  anchors : List (Text × NodeId) := []
  graph : Graph := {}

abbrev Reader := StateT Reading (Except Stop)

namespace Reader

def malformed : Reader α :=
  throw .malformed

def peek : Reader (Option Token) := do
  let r ← get
  match r.tokens, r.stop with
  | token :: _, _ => return some token
  | [], none => return none
  | [], some stop => throw stop

def pass : Reader Unit :=
  modify fun r => { r with tokens := r.tokens.tail }

def passIf (token : Token) : Reader Bool := do
  if (← peek) = some token then
    pass
    return true
  else return false

def passEntryMark : Reader Unit := do
  if ← passIf .flowEntry then return () else malformed

def isAhead (tokens : List Token) : Reader Bool := do
  match ← peek with
  | some token => return tokens.contains token
  | none => return false

/-! ## Properties -/

def anchor? : Reader (Option Text) := do
  match ← peek with
  | some (.anchor name) => pass; return some name
  | _ => return none

/-- A tag as it is written: a handle, if it has one, and a suffix. -/
abbrev WrittenTag := Option Text × Text

def tag? : Reader (Option WrittenTag) := do
  match ← peek with
  | some (.tag handle suffix) => pass; return some (handle, suffix)
  | _ => return none

def uri : WrittenTag → Reader Text
  | (none, suffix) => return suffix
  | (some handle, suffix) => do
    match (← get).handles.lookup handle with
    | some start => return start ++ suffix
    | none => malformed

/-- An anchor and the URI of a tag, which are written in either order. -/
def properties : Reader (Option Text × Option Text) := do
  match ← anchor? with
  | some anchor =>
    let tag ← tag?
    return (some anchor, ← tag.mapM uri)
  | none =>
    match ← tag? with
    | some tag =>
      let anchor ← anchor?
      return (anchor, some (← uri tag))
    | none => return (none, none)

/-- The tag of a node by what is written; a lone exclamation mark asks for the
tag that the form gives. -/
def tagFor (written : Option Text) (form : Tag) : Tag :=
  match written with
  | none => form
  | some uri => if uri = [.char '!'] then form else .ofUri uri

/-- The tag of a scalar; quotes make it a text unless a lone exclamation mark
says that its spelling counts. -/
def scalarTag (written : Option Text) (text : Text) (plain : Bool) : Tag :=
  tagFor written (if plain || written.isSome then .ofSpelling text else .text)

/-! ## Anchors -/

def checkAnchor : Option Text → Reader Unit
  | none => return ()
  | some anchor => do
    if ((← get).anchors.lookup anchor).isSome then malformed else return ()

def aliased (anchor : Text) : Reader NodeId := do
  match (← get).anchors.lookup anchor with
  | some n => return n
  | none => malformed

/-! ## New nodes -/

def add (anchor : Option Text) (node : Node) : Reader NodeId := do
  let r ← get
  let n := r.graph.fresh
  let anchors := match anchor with
    | none => r.anchors
    | some anchor => (anchor, n) :: r.anchors
  set { r with graph := r.graph.add node, anchors }
  return n

/-- Adds a collection.  Its anchor already stands for it while its content is
read. -/
def addCollection (anchor : Option Text) (tag : Tag) (read : Reader Content) :
    Reader NodeId := do
  let n ← add anchor ⟨tag, .sequence []⟩
  let content ← read
  modify fun r => { r with graph := r.graph.setContent n content }
  return n

end Reader

/-! ## Nodes -/

inductive Place
  | block
  /-- A block in which a sequence may stand at the column of its key. -/
  | entry
  | flow
deriving DecidableEq, Repr

open Reader

def blockEnds : List Token := [.key, .value, .blockEnd]

mutual

/-- One node.  Every round either uses up a token or hands over to one that
does. -/
def readNode : (rounds : Nat) → Place → Reader NodeId
  | 0, _ => malformed
  | rounds + 1, place => do
    match ← peek with
    | some (.alias name) => pass; aliased name
    | _ =>
      let (anchor, tag) ← properties
      match place, ← peek with
      | .entry, some .blockEntry =>
        checkAnchor anchor
        addCollection anchor (tagFor tag .list) (.sequence <$> readEntries rounds)
      | _, some (.scalar text plain) =>
        pass
        checkAnchor anchor
        add anchor ⟨scalarTag tag text plain, .scalar text⟩
      | _, some .flowSequenceStart =>
        pass
        checkAnchor anchor
        addCollection anchor (tagFor tag .list) (.sequence <$> readFlowItems rounds true)
      | _, some .flowMappingStart =>
        pass
        checkAnchor anchor
        addCollection anchor (tagFor tag .map) (.mapping <$> readFlowEntries rounds true)
      | place, token =>
        if place ≠ .flow && token = some .blockSequenceStart then
          pass
          checkAnchor anchor
          addCollection anchor (tagFor tag .list) (.sequence <$> readBlockItems rounds)
        else if place ≠ .flow && token = some .blockMappingStart then
          pass
          checkAnchor anchor
          addCollection anchor (tagFor tag .map) (.mapping <$> readBlockEntries rounds)
        else if anchor.isSome || tag.isSome then
          checkAnchor anchor
          add anchor ⟨scalarTag tag [] true, .scalar []⟩
        else malformed

def readUnless : (rounds : Nat) → List Token → Place → Reader NodeId
  | 0, _, _ => malformed
  | rounds + 1, ends, place => do
    if ← isAhead ends then add none .empty else readNode rounds place

def readBlockItems : (rounds : Nat) → Reader (List NodeId)
  | 0 => malformed
  | rounds + 1 => do
    if ← passIf .blockEntry then
      let item ← readUnless rounds [.blockEntry, .blockEnd] .block
      return item :: (← readBlockItems rounds)
    else if ← passIf .blockEnd then return []
    else malformed

/-- The items of a sequence at the column of its key.  It ends where no further
item begins. -/
def readEntries : (rounds : Nat) → Reader (List NodeId)
  | 0 => malformed
  | rounds + 1 => do
    if ← passIf .blockEntry then
      let item ← readUnless rounds (.blockEntry :: blockEnds) .block
      return item :: (← readEntries rounds)
    else return []

def readValue : (rounds : Nat) → List Token → Place → Reader NodeId
  | 0, _, _ => malformed
  | rounds + 1, ends, place => do
    if ← passIf .value then readUnless rounds ends place else add none .empty

def readBlockEntries : (rounds : Nat) → Reader (List Entry)
  | 0 => malformed
  | rounds + 1 => do
    if ← passIf .key then
      let key ← readUnless rounds blockEnds .entry
      let value ← readValue rounds blockEnds .entry
      return (key, value) :: (← readBlockEntries rounds)
    else if ← passIf .blockEnd then return []
    else malformed

/-- The items of a flow sequence with its end.  A key makes an item a mapping of
one entry. -/
def readFlowItems : (rounds : Nat) → (first : Bool) → Reader (List NodeId)
  | 0, _ => malformed
  | rounds + 1, first => do
    if ← passIf .flowSequenceEnd then return []
    unless first do
      passEntryMark
    if ← passIf .flowSequenceEnd then return []
    else
      let ends := [.flowEntry, .flowSequenceEnd]
      let item ←
        if ← passIf .key then
          addCollection none .map do
            let key ← readUnless rounds (.value :: ends) .flow
            return .mapping [(key, ← readValue rounds ends .flow)]
        else readNode rounds .flow
      return item :: (← readFlowItems rounds false)

def readFlowEntries : (rounds : Nat) → (first : Bool) → Reader (List Entry)
  | 0, _ => malformed
  | rounds + 1, first => do
    if ← passIf .flowMappingEnd then return []
    unless first do
      passEntryMark
    if ← passIf .flowMappingEnd then return []
    else
      let ends := [.flowEntry, .flowMappingEnd]
      let entry ←
        if ← passIf .key then do
          let key ← readUnless rounds (.value :: ends) .flow
          pure (key, ← readValue rounds ends .flow)
        else pure (← readNode rounds .flow, ← add none .empty)
      return entry :: (← readFlowEntries rounds false)

end

/-! ## Documents -/

def defaultHandles : List (Text × Text) :=
  [([.char '!'], [.char '!']), ("!!".text, Tag.space)]

/-- The directives in front of a document: at most one version, which must be
known, and at most one meaning for a handle. -/
def readDirectives : List Token → (versioned : Bool) → (handles : List (Text × Text)) →
    Except Stop (List (Text × Text) × List Token)
  | .directive (.version major _) :: rest, versioned, handles =>
    if versioned || major ≠ 1 then .error .malformed else readDirectives rest true handles
  | .directive (.tag handle start) :: rest, versioned, handles =>
    if (handles.lookup handle).isSome then .error .malformed
    else readDirectives rest versioned (handles ++ [(handle, start)])
  | .directive (.other) :: rest, versioned, handles => readDirectives rest versioned handles
  | rest, _, handles => .ok (handles ++ defaultHandles, rest)

def passEnds : Reader Unit :=
  modify fun r => { r with tokens := r.tokens.dropWhile (· = .documentEnd) }

def readAnnouncement : Reader Unit := do
  let r ← get
  let (handles, tokens) ← readDirectives r.tokens false []
  set { r with tokens, handles }
  if ← passIf .documentStart then return () else malformed

def isBare : Reader Bool := do
  match ← peek with
  | none | some (.directive _) | some .documentStart | some .documentEnd => return true
  | _ => return false

def readRoot (rounds : Nat) : Reader NodeId := do
  match ← peek with
  | some (.directive _) | some .documentStart =>
    readAnnouncement
    if ← isBare then add none .empty else readNode rounds .block
  | _ =>
    modify fun r => { r with handles := defaultHandles }
    readNode rounds .block

/-- The root of the only document of the tokens; nothing if there is none.  A
second document is an error, and so are its directives if they are wrong. -/
def readDocument : Reader (Option NodeId) := do
  let rounds := 4 * (← get).tokens.length + 8
  if (← peek).isNone then return none
  else
    let root ← readRoot rounds
    passEnds
    if (← peek).isNone then return some root
    else
      readAnnouncement
      malformed

namespace Graph

def ofTokens? (tokens : List Token) (stop : Option Stop) :
    Except Stop (Option (NodeId × Graph)) :=
  (readDocument.run { tokens, stop }).map fun (root, r) => root.map (·, r.graph)

end Graph
end Yaml
end SchemaLedger
