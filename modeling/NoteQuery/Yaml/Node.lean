/-
Nodes of YAML.

The tokens of a document form a tree of scalars, sequences and mappings.  Every node has a tag,
which says what sort of data it is: one that is written down, or else the one that the form of
a plain scalar calls for.  An alias is the node that its anchor names.
-/
import NoteQuery.Yaml.Tag
import NoteQuery.Yaml.Token

namespace NoteQuery.Yaml

/-- A tree of data.  `loop` stands where a collection contains itself. -/
inductive Node where
  | scalar (tag text : String) (mark : Mark)
  | sequence (tag : String) (items : List Node) (mark : Mark)
  | mapping (tag : String) (pairs : List (Node × Node)) (mark : Mark)
  | loop (isMapping : Bool) (mark : Mark)

namespace Node

instance : Inhabited Node := ⟨scalar Tag.null "" {}⟩

/-- Where the node begins. -/
def mark : Node → Mark
  | scalar _ _ m | sequence _ _ m | mapping _ _ m | loop _ m => m

/-! ## Reading tokens -/

/-- An anchored node: where it begins, and the node itself unless it is still being read; then
whether it is a mapping. -/
structure Anchor where
  name : String
  mark : Mark
  node : Node

/-- The tokens to come, what stops them, and what the document has declared. -/
structure Source where
  tokens : List Token
  ending : Option Trouble
  handles : List (String × String) := []
  anchors : List Anchor := []

/-- What is read, and what follows it. -/
abbrev Read (α : Type) := Source → Except Trouble (α × Source)

/-- The next token. -/
def peek (s : Source) : Except Trouble Token :=
  match s.tokens, s.ending with
  | t :: _, _ => .ok t
  | [], some e => .error e
  | [], none => .ok default

/-- What follows the next token. -/
def Source.next (s : Source) : Source :=
  { s with tokens := s.tokens.tail }

/-- Something without characters at a place. -/
def empty (place : Mark) : Node :=
  scalar Tag.null "" place

/-- What is written before a node: its anchor, and the handle and suffix of its tag. -/
structure Properties where
  anchor : Option String := none
  tag : Option (Option String × String) := none
  first : Option Mark := none
  tagMark : Mark := {}

/-- Anchor and tag in either order, each at most once. -/
def readProperties (s : Source) : Except Trouble (Properties × Source) := do
  let t ← peek s
  match t.kind with
  | .anchor name =>
    let s := s.next
    let u ← peek s
    match u.kind with
    | .tag handle suffix => return (⟨name, some (handle, suffix), t.first, u.first⟩, s.next)
    | _ => return (⟨name, none, t.first, {}⟩, s)
  | .tag handle suffix =>
    let s := s.next
    let u ← peek s
    match u.kind with
    | .anchor name => return (⟨name, some (handle, suffix), t.first, t.first⟩, s.next)
    | _ => return (⟨none, some (handle, suffix), t.first, t.first⟩, s)
  | _ => return ({}, s)

/-- The tag that is written down, its handle replaced by what it stands for. -/
def Properties.fullTag (p : Properties) (s : Source) : Except Trouble (Option String) :=
  match p.tag with
  | none => .ok none
  | some (none, suffix) => .ok (some suffix)
  | some (some handle, suffix) =>
    match s.handles.lookup handle with
    | some lead => .ok (some (lead ++ suffix))
    | none => complain .node (p.first.getD {}) (.undefinedHandle handle) p.tagMark

/-- Makes an anchor known, unless it is known already. -/
def declare (anchor : Option String) (mark : Mark) (s : Source) : Except Trouble Unit :=
  match anchor with
  | none => .ok ()
  | some name =>
    match s.anchors.find? (·.name == name) with
    | none => .ok ()
    | some known => complain (.anchored name) known.mark .secondAnchor mark

/-- Gives a name to a node. -/
def anchored (anchor : Option String) (node : Node) (s : Source) : Source :=
  match anchor with
  | none => s
  | some name => { s with anchors := ⟨name, node.mark, node⟩ :: s.anchors }

/-- The tag of a collection: a lone exclamation mark asks for the usual one. -/
def collectionTag (written : Option String) (usual : String) : String :=
  match written with
  | none => usual
  | some tag => if tag = "!" then usual else tag

/-- The tag of a scalar: one that is plain, or has a lone exclamation mark, goes by its
form. -/
def scalarTag (written : Option String) (text : String) (plain : Bool) : String :=
  match written with
  | none => if plain then Tag.ofForm text.toList else Tag.str
  | some tag => if tag = "!" then Tag.ofForm text.toList else tag

/-- The token is one of these. -/
def isOneOf (t : Token) (kinds : List TokenKind) : Bool :=
  kinds.contains t.kind

/-- Where a node may be. -/
inductive Place where
  /-- A block, where a sequence without indentation of its own is no block. -/
  | block
  /-- A key or value of a block, where such a sequence may stand. -/
  | blockPart
  /-- Between brackets. -/
  | flow
deriving DecidableEq

mutual

/-- A node. -/
def readNode : (fuel : Nat) → Place → Read Node
  | 0, _, s => complainAt ((peek s).toOption.getD default).first .missingColon
  | fuel + 1, place, s => do
    let t ← peek s
    if let .aliasOf name := t.kind then
      match s.anchors.find? (·.name == name) with
      | some known => return (known.node, s.next)
      | none => complainAt t.first (.undefinedAlias name)
    let (p, s) ← readProperties s
    let tag ← p.fullTag s
    let t ← peek s
    let start := p.first.getD t.first
    let sequenceTag := collectionTag tag Tag.seq
    let mappingTag := collectionTag tag Tag.map
    let sequence (items : Read (List Node)) : Except Trouble (Node × Source) := do
      declare p.anchor start s
      let (items, s) ← items (anchored p.anchor (.loop false start) s)
      let node := Node.sequence sequenceTag items start
      return (node, anchored p.anchor node s)
    let mapping (pairs : Read (List (Node × Node))) : Except Trouble (Node × Source) := do
      declare p.anchor start s
      let (pairs, s) ← pairs (anchored p.anchor (.loop true start) s)
      let node := Node.mapping mappingTag pairs start
      return (node, anchored p.anchor node s)
    let scalar (text : String) (plain : Bool) (s : Source) : Except Trouble (Node × Source) := do
      declare p.anchor start s
      let node := Node.scalar (scalarTag tag text plain) text start
      return (node, anchored p.anchor node s)
    match t.kind, place with
    | .blockEntry, .blockPart => sequence (readLooseItems fuel)
    | .scalar text plain, _ => scalar text plain s.next
    | .flowSequenceStart, _ => sequence fun s => readFlowItems fuel t.first true s.next
    | .flowMappingStart, _ => mapping fun s => readFlowPairs fuel t.first true s.next
    | .blockSequenceStart, .block | .blockSequenceStart, .blockPart =>
      sequence fun s => readItems fuel t.first s.next
    | .blockMappingStart, .block | .blockMappingStart, .blockPart =>
      mapping fun s => readPairs fuel t.first s.next
    | kind, _ =>
      if p.first.isSome then scalar "" tag.isNone s
      else
        let task := if place = .flow then Task.flowNode else .blockNode
        complain task start (.unexpectedToken "the node content" kind.name) t.first

/-- A node unless one of the tokens comes that cannot start it; then nothing, at a place. -/
def readOptional : (fuel : Nat) → Place → (stops : List TokenKind) → (mark : Mark) → Read Node
  | 0, _, _, mark, s => .ok (empty mark, s)
  | fuel + 1, place, stops, mark, s => do
    if isOneOf (← peek s) stops then return (empty mark, s)
    readNode fuel place s

/-- The entries of a block sequence. -/
def readItems : (fuel : Nat) → (start : Mark) → Read (List Node)
  | 0, _, s => .ok ([], s)
  | fuel + 1, start, s => do
    let t ← peek s
    match t.kind with
    | .blockEntry =>
      let (item, s) ← readOptional fuel .block [.blockEntry, .blockEnd] t.last s.next
      let (items, s) ← readItems fuel start s
      return (item :: items, s)
    | .blockEnd => return ([], s.next)
    | kind => complain .blockCollection start (.unexpectedToken "<block end>" kind.name) t.first

/-- The entries of a sequence at the indentation of its key. -/
def readLooseItems : (fuel : Nat) → Read (List Node)
  | 0, s => .ok ([], s)
  | fuel + 1, s => do
    let t ← peek s
    match t.kind with
    | .blockEntry =>
      let (item, s) ←
        readOptional fuel .block [.blockEntry, .key, .value, .blockEnd] t.last s.next
      let (items, s) ← readLooseItems fuel s
      return (item :: items, s)
    | _ => return ([], s)

/-- The pairs of a block mapping. -/
def readPairs : (fuel : Nat) → (start : Mark) → Read (List (Node × Node))
  | 0, _, s => .ok ([], s)
  | fuel + 1, start, s => do
    let t ← peek s
    match t.kind with
    | .key =>
      let stops : List TokenKind := [.key, .value, .blockEnd]
      let (key, s) ← readOptional fuel .blockPart stops t.last s.next
      let u ← peek s
      let (value, s) ←
        if u.kind = .value then readOptional fuel .blockPart stops u.last s.next
        else pure (empty u.first, s)
      let (pairs, s) ← readPairs fuel start s
      return ((key, value) :: pairs, s)
    | .blockEnd => return ([], s.next)
    | kind => complain .blockMapping start (.unexpectedToken "<block end>" kind.name) t.first

/-- The entries of a bracketed sequence.  A key in one makes a mapping of one pair. -/
def readFlowItems : (fuel : Nat) → (start : Mark) → (first : Bool) → Read (List Node)
  | 0, _, _, s => .ok ([], s)
  | fuel + 1, start, first, s => do
    let t ← peek s
    if t.kind = .flowSequenceEnd then return ([], s.next)
    if !first && t.kind != .flowEntry then
      complain .flowSequence start (.unseparated ']' t.kind.name) t.first
    let s := if first then s else s.next
    let t ← peek s
    match t.kind with
    | .flowSequenceEnd => return ([], s.next)
    | .key =>
      let (key, s) ←
        readOptional fuel .flow [.value, .flowEntry, .flowSequenceEnd] t.last s.next
      let u ← peek s
      let (value, s) ←
        if u.kind = .value then
          readOptional fuel .flow [.flowEntry, .flowSequenceEnd] u.last s.next
        else pure (empty u.first, s)
      let (items, s) ← readFlowItems fuel start false s
      return (.mapping Tag.map [(key, value)] t.first :: items, s)
    | _ =>
      let (item, s) ← readNode fuel .flow s
      let (items, s) ← readFlowItems fuel start false s
      return (item :: items, s)

/-- The pairs of a bracketed mapping.  A node without a key's sign has no value. -/
def readFlowPairs : (fuel : Nat) → (start : Mark) → (first : Bool) → Read (List (Node × Node))
  | 0, _, _, s => .ok ([], s)
  | fuel + 1, start, first, s => do
    let t ← peek s
    if t.kind = .flowMappingEnd then return ([], s.next)
    if !first && t.kind != .flowEntry then
      complain .flowMapping start (.unseparated '\x7d' t.kind.name) t.first
    let s := if first then s else s.next
    let t ← peek s
    match t.kind with
    | .flowMappingEnd => return ([], s.next)
    | .key =>
      let (key, s) ← readOptional fuel .flow [.value, .flowEntry, .flowMappingEnd] t.last s.next
      let u ← peek s
      let (value, s) ←
        if u.kind = .value then
          readOptional fuel .flow [.flowEntry, .flowMappingEnd] u.last s.next
        else pure (empty u.first, s)
      let (pairs, s) ← readFlowPairs fuel start false s
      return ((key, value) :: pairs, s)
    | _ =>
      let (key, s) ← readNode fuel .flow s
      let u ← peek s
      let (pairs, s) ← readFlowPairs fuel start false s
      return ((key, empty u.first) :: pairs, s)

end

/-! ## Documents -/

/-- What handles stand for if no directive says otherwise. -/
def usualHandles : List (String × String) := [("!", "!"), ("!!", Tag.lead)]

/-- The directives before a document. -/
def readDirectives (versioned : Bool) (declared : List (String × String)) :
    (fuel : Nat) → Source → Except Trouble Source
  | 0, s => .ok s
  | fuel + 1, s => do
    let t ← peek s
    match t.kind with
    | .versionDirective major _ =>
      if versioned then complainAt t.first .repeatedVersion
      if major != 1 then complainAt t.first .incompatibleVersion
      readDirectives true declared fuel s.next
    | .tagDirective handle lead =>
      if (declared.lookup handle).isSome then complainAt t.first (.repeatedHandle handle)
      readDirectives versioned ((handle, lead) :: declared) fuel s.next
    | .otherDirective => readDirectives versioned declared fuel s.next
    | _ => return { s with handles := declared ++ usualHandles }

/-- Marks of a document's end. -/
def skipDocumentEnds : (fuel : Nat) → Source → Except Trouble Source
  | 0, s => .ok s
  | fuel + 1, s => do
    if (← peek s).kind = .documentEnd then skipDocumentEnds fuel s.next else return s

/-- What begins a document, when the text has not ended: the place where it begins, and what
follows. -/
def readDocumentStart (s : Source) : Except Trouble (Option (Mark × Source)) := do
  let s ← skipDocumentEnds (s.tokens.length + 1) s
  let t ← peek s
  if t.kind = .streamEnd then return none
  let s ← readDirectives false [] (s.tokens.length + 1) s
  let u ← peek s
  if u.kind != .documentStart then
    complainAt u.first (.unexpectedToken "'<document start>'" u.kind.name)
  return some (t.first, s.next)

/-- The node of the only document; none if there is no document. -/
def ofTokens? (tokens : List Token) (ending : Option Trouble) :
    Except Trouble (Option Node) := do
  let s : Source := { tokens, ending, handles := usualHandles }
  let fuel := 4 * tokens.length + 8
  let finish (node : Node) (s : Source) : Except Trouble (Option Node) := do
    let t ← peek s
    let s := if t.kind = .documentEnd then s.next else s
    match ← readDocumentStart s with
    | none => return some node
    | some (mark, _) => complain .onlyDocument node.mark .secondDocument mark
  let t ← peek s
  if isOneOf t [.documentStart, .streamEnd] || (t.kind matches .versionDirective .. |
      .tagDirective .. | .otherDirective) then
    match ← readDocumentStart s with
    | none => return none
    | some (_, s) =>
      let t ← peek s
      let directive := t.kind matches .versionDirective .. | .tagDirective .. | .otherDirective
      if directive || isOneOf t [.documentStart, .documentEnd, .streamEnd] then
        finish (empty t.first) s
      else
        let (node, s) ← readNode fuel .block s
        finish node s
  else
    let (node, s) ← readNode fuel .block s
    finish node s

end Node

end NoteQuery.Yaml
