import ApiContract.Types.Merge
import ApiContract.Types.Names

/-! # Types of schemas

Every schema has a target type. Beans and enums are known by name, an anonymous
object or enumeration gets a name from its owner and its role, and a component of
any other form is an alias whose type is kept once it is known.
-/
namespace ApiContract.Types

/-- The way a part of a schema is mapped: schema, owner, role. -/
abbrev Mapping := Option Schema → String → Scalar → Step TypeRef

def externalType (name : Tree) : Step TypeRef :=
  Step.lift ((need .illTyped name.text?).map TypeRef.external)

def beanField (map : Mapping) (owner : String) (required : List Scalar)
    (property : Scalar × Schema) : Step BeanField := do
  let type ← map (some property.2) owner property.1
  pure { name := property.1, type, required := required.any (· == property.1),
         description := property.2.description }

def buildBean (contract : Contract) (map : Mapping) (name : String) (schema : Schema) :
    Step Unit := do
  let merged ← Step.lift (Merged.ofSchema contract schema)
  let fields ← merged.properties.mapM (beanField map name merged.required)
  let bean : Bean :=
    { name, fields, description := schema.description, location := schema.location }
  Step.modifyTables fun t => { t with beans := Table.put t.beans name bean }
  Step.record (.beanMapped name fields.length)

def buildEnum (name : String) (schema : Schema) (values : List Tree) : Step Unit :=
  let enum : EnumType :=
    { name, values, description := schema.description, location := schema.location }
  Step.modifyTables fun t => { t with enums := Table.put t.enums name enum }

/-- The type of an alias, kept for the next reference to it. -/
def resolveAlias (map : Mapping) (name javaName location : String) (schema : Schema) :
    Step TypeRef := do
  let t ← Step.tables
  match Table.get? t.aliases name with
  | some type => pure type
  | none =>
    if name ∈ t.resolving then Step.fail (.schema (.circularAlias name) location)
    else
      Step.modifyTables fun t => { t with resolving := name :: t.resolving }
      let type ← Step.afterwards (map (some schema) javaName (.text "")) fun t =>
        { t with resolving := t.resolving.filter (· ≠ name) }
      Step.modifyTables fun t => { t with aliases := Table.put t.aliases name type }
      pure type

/-- The type of a component, for a reference at a location. -/
def referenceWith (contract : Contract) (map : Mapping) (name location : String) :
    Step TypeRef := do
  let t ← Step.tables
  match Table.get? t.failed name with
  | some fault => Step.fail (.schema (.dependsOn name fault.location) location)
  | none =>
    let schema ← Step.lift (need .missing (contract.schema? name))
    let javaName ← Step.lift (need .missing (Table.get? t.typeNames name))
    if schema.isExternal then externalType schema.external
    else match schema with
      | .object .. => pure (.bean javaName)
      | .enumeration .. => pure (.enum javaName)
      | _ => resolveAlias map name javaName location schema

def innerRole (role : Scalar) (part : String) : Scalar := .text (role.display ++ part)

/-- One schema, its parts being mapped by `map`. -/
def mapNode (contract : Contract) (map : Mapping) : Mapping := fun schema owner role =>
  match schema with
  | none => pure .any
  | some s =>
    if s.isExternal then externalType s.external
    else match s with
      | .reference location target => referenceWith contract map target location
      | .unsupported n what => Step.fail (.schema (.unsupported what) n.location)
      | .primitive _ type format => do
        let format ← Step.lift (formatText format)
        pure (.primitive type format)
      | .binary _ => pure .binary
      | .any _ => pure .any
      | .array _ items => do
        let element ← map (some items) owner (innerRole role "Item")
        pure (.list element)
      | .map _ value => do
        let element ← map (some value) owner (innerRole role "Value")
        pure (.map element)
      | .enumeration _ _ values => do
        let name ← synthesizeName owner role
        buildEnum name s values
        pure (.enum name)
      | .object _ properties _ members =>
        if properties.isEmpty && members.isEmpty then pure (.map .any)
        else do
          let name ← synthesizeName owner role
          buildBean contract map name s
          pure (.bean name)

def mapWithin (contract : Contract) : Nat → Mapping
  | 0 => fun _ _ _ => Step.fail .endless
  | depth + 1 => mapNode contract (mapWithin contract depth)

/-- How deep the mapping of a schema with that many nodes of its own can go before a
node comes back with the same aliases under way. -/
def depthBound (contract : Contract) (own : Nat) : Nat :=
  (contract.nodeCount + own + 1) * (contract.schemas.length + 2)

def ownNodes : Option Schema → Nat
  | some s => s.nodes.length
  | none => 0

def mapSchema (contract : Contract) : Mapping := fun schema owner role =>
  mapWithin contract (depthBound contract (ownNodes schema)) schema owner role

def reference (contract : Contract) (name location : String) : Step TypeRef :=
  referenceWith contract (mapWithin contract (depthBound contract 0)) name location

end ApiContract.Types
