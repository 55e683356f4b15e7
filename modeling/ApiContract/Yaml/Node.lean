import ApiContract.Yaml.Tag
import ApiContract.Yaml.Token

/-! # Nodes

The tokens of a text form a graph of nodes, in which a node names its parts by their
numbers. A reference stands for the node of its anchor, also inside that node, and no
anchor is given twice. An entry, key or value with nothing behind it is an empty
scalar. Where the tokens break off, so does the reading of nodes.
-/
namespace ApiContract.Yaml

inductive Node
  | scalar (tag : Tag) (content : String)
  | list (tag : Tag) (items : List Nat)
  | map (tag : Tag) (entries : List (Nat × Nat))

abbrev Graph := Array Node

namespace Node

def tag : Node → Tag
  | scalar t _ => t
  | list t _ => t
  | map t _ => t

def withTag (t : Tag) : Node → Node
  | scalar _ content => scalar t content
  | list _ items => list t items
  | map _ entries => map t entries

/-- What is left of the tokens, with the nodes, anchors and tag handles known by now. -/
structure Scope where
  stream : Token.Stream
  graph : Graph := #[]
  anchors : Table String Nat := []
  handles : Table String String := []

abbrev Reader (α : Type) := StateT Scope (Except Problem) α

def fail {α : Type} : Reader α := fun _ => .error .malformed

def peek : Reader (Option Token) := fun s =>
  match s.stream.tokens, s.stream.problem with
  | t :: _, _ => .ok (some t, s)
  | [], some problem => .error problem
  | [], none => .ok (none, s)

def skip : Reader Unit := fun s =>
  .ok ((), { s with stream := { s.stream with tokens := s.stream.tokens.tail } })

/-- Whether the next token is the given one, which is skipped then. -/
def takes (t : Token) : Reader Bool := do
  if (← peek) == some t then
    skip
    pure true
  else pure false

def takeOr (t : Token) : Reader Unit := do
  if !(← takes t) then fail

def add (anchor : Option String) (n : Node) : Reader Nat := fun s =>
  let id := s.graph.size
  let anchors := match anchor with
    | some name => Table.put s.anchors name id
    | none => s.anchors
  .ok (id, { s with graph := s.graph.push n, anchors })

/-- Adds a node under its anchor before its parts are read. -/
def addAround {α : Type} (anchor : Option String) (make : List α → Node)
    (parts : Reader (List α)) : Reader Nat := do
  let id ← add anchor (make [])
  let found ← parts
  modify fun s => { s with graph := s.graph.setIfInBounds id (make found) }
  pure id

def addEmpty : Reader Nat := add none (scalar .null "")

/-- The node behind a mark, or an empty one when one of the tokens follows. -/
def orEmpty (ends : List Token) (node : Reader Nat) : Reader Nat := do
  match ← peek with
  | some t => if ends.contains t then addEmpty else node
  | none => node

def entries (ends : List Token) (node : Reader Nat) : Nat → List Nat → Reader (List Nat)
  | 0, _ => fail
  | fuel + 1, done => do
    if ← takes .entry then
      let item ← orEmpty ends node
      entries ends node fuel (item :: done)
    else pure done.reverse

def blockList (node : Reader Nat) (fuel : Nat) : Reader (List Nat) := do
  let items ← entries [.entry, .blockEnd] node fuel []
  takeOr .blockEnd
  pure items

def valueOf (ends : List Token) (node : Reader Nat) : Reader Nat := do
  if ← takes .value then orEmpty ends node else addEmpty

def blockPart (node : Reader Nat) : Reader Nat := orEmpty [.key, .value, .blockEnd] node

def blockMap (node : Reader Nat) : Nat → List (Nat × Nat) → Reader (List (Nat × Nat))
  | 0, _ => fail
  | fuel + 1, done => do
    if ← takes .key then
      let k ← blockPart node
      let v ← valueOf [.key, .value, .blockEnd] node
      blockMap node fuel ((k, v) :: done)
    else
      takeOr .blockEnd
      pure done.reverse

/-- The comma before every part of a bracket but the first. -/
def separator (isFirst : Bool) : Reader Unit := do
  if !isFirst then takeOr .comma

def singlePair (node : Reader Nat) : Reader Nat := do
  let k ← orEmpty [.value, .comma, .flowListEnd] node
  let v ← valueOf [.comma, .flowListEnd] node
  add none (map .map [(k, v)])

def flowList (node : Reader Nat) : Nat → List Nat → Reader (List Nat)
  | 0, _ => fail
  | fuel + 1, done => do
    if ← takes .flowListEnd then pure done.reverse
    else
      separator done.isEmpty
      if ← takes .flowListEnd then pure done.reverse
      else
        let item ← if ← takes .key then singlePair node else node
        flowList node fuel (item :: done)

def flowPair (node : Reader Nat) : Reader (Nat × Nat) := do
  if ← takes .key then
    let k ← orEmpty [.value, .comma, .flowMapEnd] node
    let v ← valueOf [.comma, .flowMapEnd] node
    pure (k, v)
  else
    let k ← node
    let v ← addEmpty
    pure (k, v)

def flowMap (node : Reader Nat) : Nat → List (Nat × Nat) → Reader (List (Nat × Nat))
  | 0, _ => fail
  | fuel + 1, done => do
    if ← takes .flowMapEnd then pure done.reverse
    else
      separator done.isEmpty
      if ← takes .flowMapEnd then pure done.reverse
      else
        let pair ← flowPair node
        flowMap node fuel (pair :: done)

structure Properties where
  anchor : Option String := none
  tag : Option WrittenTag := none

/-- The address of a tag, with its handle spelt out. -/
def address (t : WrittenTag) : Reader String := fun s =>
  match t.handle with
  | none => .ok (t.rest, s)
  | some handle =>
    match Table.get? s.handles handle with
    | some start => .ok (start ++ t.rest, s)
    | none => .error .malformed

def addressOf (tag : Option WrittenTag) : Reader (Option String) :=
  match tag with
  | some t => some <$> address t
  | none => pure none

def takeAnchor (p : Properties) : Reader Properties := do
  match ← peek with
  | some (.anchor name) => do
    skip
    pure { p with anchor := some name }
  | _ => pure p

def takeTag (p : Properties) : Reader Properties := do
  match ← peek with
  | some (.tag t) => do
    skip
    pure { p with tag := some t }
  | _ => pure p

def properties : Reader Properties := do
  let first ← takeAnchor {}
  let tagged ← takeTag first
  if tagged.anchor.isSome then pure tagged
  else if tagged.tag.isSome then takeAnchor tagged
  else pure tagged

/-- The tag of a scalar; a lone mark stands for none and makes it plain. -/
def scalarTag (tag : Option String) (content : String) (isPlain : Bool) : Tag :=
  match tag with
  | some a => if a == "!" then .ofPlain content else .ofAddress a
  | none => if isPlain then .ofPlain content else .text

def collectionTag (tag : Option String) (default : Tag) : Tag :=
  match tag with
  | some a => if a == "!" then default else .ofAddress a
  | none => default

def requireFresh (anchor : Option String) : Reader Unit := do
  let known := (← get).anchors
  if anchor.any (Table.has known) then fail

def referenced (name : String) : Reader Nat := fun s =>
  match Table.get? s.anchors name with
  | some id => .ok (id, s)
  | none => .error .malformed

/-- Where a node stands: which blocks may start there. -/
inductive Place
  | flow
  | block
  /-- Behind a key, where the entries of a list need no deeper column. -/
  | mapPart
  deriving DecidableEq

/-- A node behind its properties, whose content starts with the next token. -/
def content (node : Place → Reader Nat) (fuel : Nat) (place : Place) (anchor tag : Option String) :
    Reader Nat := do
  let next ← peek
  requireFresh anchor
  match next with
  | some .entry =>
    if place = .mapPart then
      addAround anchor (list (collectionTag tag .list))
        (entries [.entry, .key, .value, .blockEnd] (node .block) fuel [])
    else bare
  | some (.scalar text isPlain) => do
    skip
    add anchor (scalar (scalarTag tag text isPlain) text)
  | some .flowListStart => do
    skip
    addAround anchor (list (collectionTag tag .list)) (flowList (node .flow) fuel [])
  | some .flowMapStart => do
    skip
    addAround anchor (map (collectionTag tag .map)) (flowMap (node .flow) fuel [])
  | some .blockListStart =>
    if place = .flow then bare
    else do
      skip
      addAround anchor (list (collectionTag tag .list)) (blockList (node .block) fuel)
  | some .blockMapStart =>
    if place = .flow then bare
    else do
      skip
      addAround anchor (map (collectionTag tag .map)) (blockMap (node .mapPart) fuel [])
  | _ => bare
where
  bare : Reader Nat :=
    if anchor.isSome || tag.isSome then add anchor (scalar (scalarTag tag "" true) "") else fail

def read : Nat → Place → Reader Nat
  | 0, _ => fail
  | fuel + 1, place => do
    match ← peek with
    | some (.reference name) => do
      skip
      referenced name
    | _ => do
      let p ← properties
      let tag ← addressOf p.tag
      content (read fuel) fuel place p.anchor tag

/-- The directives before a document, which may say nothing twice. -/
def directives : Nat → Bool → Reader Unit
  | 0, _ => fail
  | fuel + 1, hasVersion => do
    match ← peek with
    | some (.directive (.version major _)) => do
      skip
      if hasVersion || major != 1 then fail
      directives fuel true
    | some (.directive (.handle name start)) => do
      skip
      if Table.has (← get).handles name then fail
      modify fun s => { s with handles := Table.put s.handles name start }
      directives fuel hasVersion
    | some (.directive .other) => do
      skip
      directives fuel hasVersion
    | _ => pure ()

def knownHandles : List (String × String) := [("!", "!"), ("!!", Tag.base)]

def addKnownHandles : Reader Unit := modify fun s =>
  { s with handles := s.handles ++ knownHandles.filter fun e => !Table.has s.handles e.1 }

/-- A document behind its mark, which may be empty. -/
def markedDocument (fuel : Nat) : Reader Nat := do
  directives fuel false
  addKnownHandles
  takeOr .documentStart
  match ← peek with
  | none => addEmpty
  | some t =>
    if t matches .directive _ | .documentStart | .documentEnd then addEmpty
    else read fuel .block

def document (fuel : Nat) : Reader Nat := do
  match ← peek with
  | some (.directive _) => markedDocument fuel
  | some .documentStart => markedDocument fuel
  | _ => do
    addKnownHandles
    read fuel .block

def skipEnds : Nat → Reader Unit
  | 0 => fail
  | fuel + 1 => do
    if ← takes .documentEnd then skipEnds fuel

/-- Nothing but marks of its end may stand behind a document. -/
def atEnd (fuel : Nat) : Reader Unit := do
  skipEnds fuel
  if (← peek).isSome then
    modify fun s => { s with handles := [] }
    directives fuel false
    fail

/-- The node of the only document; no tokens at all are none. -/
def only (fuel : Nat) : Reader (Option Nat) := do
  if (← peek).isNone then pure none
  else
    let id ← document fuel
    atEnd fuel
    pure (some id)

def ofTokens (stream : Token.Stream) : Result (Option Nat × Graph) := do
  let (root, final) ← only (stream.tokens.length + 1) { stream }
  pure (root, final.graph)

end Node

end ApiContract.Yaml
