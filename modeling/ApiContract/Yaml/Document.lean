import ApiContract.Yaml.Merge

/-! # Documents

The nodes of a text become values from the outermost one inwards: lists and maps wait
in line until those before them have their parts, so that of two faults the outer one
decides. The keys of a map are scalars, and of two equal keys the later value stands
in the earlier place. A node that is reached from itself becomes a loop.
-/
namespace ApiContract.Yaml

inductive Made
  | scalar (s : Scalar)
  | waiting
  | list (items : List Nat)
  | map (entries : Table Scalar Nat)

/-- The nodes with what they have become, and those that wait, the last one first. -/
structure Build where
  graph : Graph
  made : Array (Option Made)
  line : List Nat := []

namespace Build

abbrev Builder (α : Type) := StateT Build (Except Problem) α

def ofGraph (graph : Graph) : Build := { graph, made := Array.replicate graph.size none }

def made? (b : Build) (id : Nat) : Option Made := b.made[id]?.join

def lift {α : Type} (result : Result α) : Builder α := fun b => result.map fun a => (a, b)

def fail {α : Type} : Builder α := lift (.error .malformed)

def put (id : Nat) (m : Made) : Builder Unit := modify fun b =>
  { b with made := b.made.setIfInBounds id (some m) }

/-- The text of a node that is taken for a scalar; a map has that of its plain value. -/
def contentWithin (g : Graph) : Nat → Nat → Result String
  | 0, _ => .error .endless
  | fuel + 1, id =>
    match g[id]? with
    | some (.scalar _ content) => .ok content
    | some (.map _ entries) =>
      match entries.find? fun e => g.hasTag .value e.1 with
      | some e => contentWithin g fuel e.2
      | none => .error .malformed
    | _ => .error .malformed

def isScalarTag (tag : Tag) : Bool := [.null, .bool, .int, .float, .moment, .text].contains tag

def scalarOf (g : Graph) (id : Nat) (node : Node) : Result Scalar :=
  match node with
  | .scalar tag content => tag.scalar content
  | _ =>
    if isScalarTag node.tag then do
      let content ← contentWithin g (g.size + 1) id
      if node.tag = .moment then .error .illTyped else node.tag.scalar content
    else .error .malformed

/-- Makes a scalar of a node, or lets it wait; nothing is done twice. -/
def start (id : Nat) : Builder Unit := do
  let b ← get
  if (b.made? id).isNone then
    match b.graph[id]? with
    | none => fail
    | some node =>
      if node.tag = .list || node.tag = .map then do
        put id .waiting
        modify fun b => { b with line := id :: b.line }
      else do
        let s ← lift (scalarOf b.graph id node)
        put id (.scalar s)

def startEntry (entry : Nat × Nat) : Builder (Scalar × Nat) := do
  start entry.1
  match (← get).made? entry.1 with
  | some (.scalar key) => do
    start entry.2
    pure (key, entry.2)
  | _ => fail

def fill (id : Nat) : Builder Unit := do
  let g := (← get).graph
  match g[id]? with
  | some (.list .list items) => do
    items.forM start
    put id (.list items)
  | some (.map .map _) => do
    let merged ← lift (g.merge id)
    modify fun b => { b with graph := merged }
    let entries ← (merged.entries id).mapM startEntry
    put id (.map (Table.ofPairs entries))
  | _ => fail

/-- Gives parts to all that wait, then to what waits by then. -/
def fillAll : Nat → Builder Unit
  | 0 => pure ()
  | fuel + 1 => do
    let line := (← get).line.reverse
    if !line.isEmpty then
      modify fun b => { b with line := [] }
      line.forM fill
      fillAll fuel

def fillFrom (root : Nat) : Builder Unit := do
  start root
  fillAll ((← get).graph.size + 1)

end Build

structure Grown where
  tree : Tree
  marks : List Nat := []
  isFlat : Bool := true

namespace Grown

abbrev Grower (α : Type) := StateM (Array (Option Tree)) α

/-- Closes a list or map over its parts. It holds itself when a part goes back to it or
to a node around it. -/
def close (id : Nat) (tree : Tree) (parts : List Grown) : Grower Grown := do
  let marks := (parts.flatMap Grown.marks).eraseDups
  if parts.all Grown.isFlat then
    modify fun known => known.setIfInBounds id (some tree)
    pure { tree }
  else
    pure { tree := if marks.isEmpty then tree else .loop id tree, isFlat := false,
           marks := marks.filter (· ≠ id) }

def grow (made : Array (Option Made)) : Nat → List Nat → Nat → Grower Grown
  | 0, _, _ => pure { tree := .null }
  | fuel + 1, around, id => do
    if id ∈ around then pure { tree := .back id, marks := [id], isFlat := false }
    else match (← get)[id]?.join with
      | some tree => pure { tree }
      | none =>
        match made[id]?.join with
        | some (.scalar s) => pure { tree := .scalar s }
        | some (.list items) => do
          let parts ← items.mapM (grow made fuel (id :: around))
          close id (.list (parts.map Grown.tree)) parts
        | some (.map entries) => do
          let parts ← (Table.values entries).mapM (grow made fuel (id :: around))
          close id (.map ((Table.keys entries).zip (parts.map Grown.tree))) parts
        | _ => pure { tree := .null }

end Grown

def Build.treeOf (b : Build) (root : Nat) : Tree :=
  let known := Array.replicate b.made.size none
  (((Grown.grow b.made (b.made.size + 1) [] root).run known).1).tree

/-- The tree that a text writes, null for a text that writes none. -/
def treeOf (text : String) : Result Tree := do
  let (root, graph) ← Node.ofTokens (Token.ofText text)
  match root with
  | some id => do
    let (_, final) ← (Build.fillFrom id).run (.ofGraph graph)
    pure (final.treeOf id)
  | none => pure .null

end ApiContract.Yaml
