import Mathlib.Data.List.Forall2
import ApiContract.Contract.Basic

/-! # Contracts without places

What is left of a contract when the places at which its schemas stand are blanked. Two
contracts that are then the same differ in nothing else.
-/
namespace ApiContract

def SchemaNotes.unplaced (n : SchemaNotes) : SchemaNotes := { n with location := "" }

namespace Schema

mutual

/-- The schema with blank places, its own and those of all schemas below it. -/
def unplaced : Schema → Schema
  | reference _ target => reference "" target
  | primitive n type format => primitive n.unplaced type format
  | binary n => binary n.unplaced
  | any n => any n.unplaced
  | unsupported n what => unsupported n.unplaced what
  | enumeration n type values => enumeration n.unplaced type values
  | array n items => array n.unplaced items.unplaced
  | map n value => map n.unplaced value.unplaced
  | object n properties required members =>
    object n.unplaced (unplacedProperties properties) required (unplacedMembers members)

def unplacedProperties : List (Scalar × Schema) → List (Scalar × Schema)
  | [] => []
  | p :: rest => (p.1, p.2.unplaced) :: unplacedProperties rest

def unplacedMembers : List Schema → List Schema
  | [] => []
  | m :: rest => m.unplaced :: unplacedMembers rest

end

/-- Two schemas that differ in their places only. -/
def Alike (s s' : Schema) : Prop := s'.unplaced = s.unplaced

theorem unplacedMembers_congr {members members' : List Schema}
    (h : List.Forall₂ Alike members members') :
    unplacedMembers members' = unplacedMembers members := by
  induction h with
  | nil => rfl
  | cons hm _ ih => rw [unplacedMembers, unplacedMembers, hm, ih]

theorem unplacedProperties_congr {properties properties' : List (Scalar × Schema)}
    (h : List.Forall₂ (fun p p' => p'.1 = p.1 ∧ Alike p.2 p'.2) properties properties') :
    unplacedProperties properties' = unplacedProperties properties := by
  induction h with
  | nil => rfl
  | cons hp _ ih => rw [unplacedProperties, unplacedProperties, hp.1, hp.2, ih]

end Schema

def Content.unplaced (content : Content) : Content :=
  content.map fun e => (e.1, e.2.map Schema.unplaced)

def Parameter.unplaced (p : Parameter) : Parameter :=
  { p with schema := p.schema.map Schema.unplaced }

def RequestBody.unplaced (b : RequestBody) : RequestBody :=
  { b with content := Content.unplaced b.content }

def Response.unplaced (r : Response) : Response :=
  { r with content := Content.unplaced r.content }

def Operation.unplaced (op : Operation) : Operation :=
  { op with
    parameters := op.parameters.map Parameter.unplaced
    bodies := op.bodies.map RequestBody.unplaced
    responses := op.responses.map fun e => (e.1, e.2.unplaced) }

def PathItem.unplaced (item : PathItem) : PathItem :=
  { item with operations := item.operations.map Operation.unplaced }

/-- The contract with blank places of all its schemas. -/
def Contract.unplaced (c : Contract) : Contract :=
  { c with
    items := c.items.map PathItem.unplaced
    schemas := c.schemas.map fun e => (e.1, e.2.unplaced) }

end ApiContract
