import ApiContract.Contract.Basic
import ApiContract.Failure

/-! # Merged objects

A reference is followed to the schema behind it, and an object is merged from its
`allOf` members in order and its own properties last. A property keeps the place
of its first declaration and has the schema of its last one.
-/
namespace ApiContract

namespace Contract

def nodeCount (c : Contract) : Nat :=
  (c.schemas.map fun s => s.2.nodes.length).foldl (· + ·) 0

/-- Follows references, each component at most once. -/
def targetWithin (c : Contract) : Nat → List String → Schema → Outcome Schema
  | 0, _, _ => .error .endless
  | fuel + 1, seen, schema =>
    match schema with
    | .reference location name =>
      if name.isEmpty then .ok schema
      else if name ∈ seen then .error (.schema (.circularAlias name) location)
      else do
        let next ← need .missing (c.schema? name)
        c.targetWithin fuel (name :: seen) next
    | other => .ok other

def target (c : Contract) (schema : Schema) : Outcome Schema :=
  c.targetWithin (c.schemas.length + 2) [] schema

def isBinary (c : Contract) (schema : Option Schema) : Outcome Bool :=
  match schema with
  | none => .ok false
  | some s => do
    let t ← c.target s
    match t with
    | .binary _ => pure true
    | _ => pure false

end Contract

structure Merged where
  properties : Table Scalar Schema := []
  required : List Scalar := []

namespace Merged

/-- The properties of the second object override those of the first in place. -/
def append (a b : Merged) : Merged :=
  { properties := b.properties.foldl (fun t p => Table.put t p.1 p.2) a.properties,
    required := a.required ++ b.required }

/-- What merging knows on its way: the result so far and the components entered. -/
structure State where
  merged : Merged := {}
  seen : List String

/-- The object behind a member, with the components entered on the way to it. -/
def enter (c : Contract) (seen : List String) (member : Schema) :
    Outcome (Schema × List String) :=
  match member with
  | .reference location name =>
    if name ∈ seen then .error (.schema (.allOfCycle name) location)
    else do
      let t ← c.target member
      pure (t, name :: seen)
  | other => .ok (other, seen)

def addMember (c : Contract) (merge : List String → Schema → Outcome Merged) (state : State)
    (member : Schema) : Outcome State := do
  let (schema, seen) ← enter c state.seen member
  match schema with
  | .object .. =>
    let part ← merge seen schema
    pure { merged := state.merged.append part, seen }
  | _ => .error (.schema .allOfMember member.location)

def ofSchemaWithin (c : Contract) : Nat → List String → Schema → Outcome Merged
  | 0, _, _ => .error .endless
  | fuel + 1, seen, schema =>
    match schema with
    | .object _ properties required members => do
      let final ← members.foldlM (addMember c (ofSchemaWithin c fuel)) { seen }
      pure (final.merged.append { properties, required })
    | _ => .ok {}

/-- The fuel lasts: a member is a part of its object, or it enters a component that was not
entered on the way to it. -/
def ofSchema (c : Contract) (schema : Schema) : Outcome Merged :=
  ofSchemaWithin c (schema.nodes.length + c.schemas.length * c.nodeCount) [] schema

end Merged

end ApiContract
