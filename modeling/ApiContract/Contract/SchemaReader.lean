import ApiContract.Contract.Schema
import ApiContract.Pointer
import ApiContract.Tree.Written

/-! # Reading schemas

A schema node is read by its keywords, in a fixed order of precedence. A reference
must start with the place of the components and name one of them. Reading that comes
to an end reads no node inside itself, so that it goes at most as deep as there are
nodes.
-/
namespace ApiContract

structure SchemaScope where
  /-- Where references to components start. -/
  start : String
  components : List Scalar

abbrev SchemaReading := Tree → String → Outcome Schema

namespace SchemaScope

def unsupportedKeywords : List String := ["oneOf", "anyOf", "not"]

def primitiveTypes : List String := ["string", "integer", "number", "boolean"]

def referenceTarget? (scope : SchemaScope) (ref : Tree) : Option String :=
  match ref.text? with
  | some r =>
    let name := Pointer.targetName r
    if scope.start.toList.isPrefixOf r.toList && scope.components.any (· == .text name) then
      some name
    else none
  | none => none

/-- The type of a node. A list of types stands for its only member besides `null`;
none is given for a list with several, or with a bare null value. -/
def typeOf? (fields : Fields) : Option Tree :=
  let type := (Fields.field? fields "type").getD .null
  match type.items? with
  | some types =>
    match types.filter fun t => t.text? != some "null" with
    | [] => some .null
    | [t] => if t.isNull then none else some t
    | _ => none
  | none => some type

def descriptionOf (fields : Fields) : Tree :=
  (((Fields.field? fields "description").getD .null).orElse
    ((Fields.field? fields "title").getD .null)).orElse (.text "")

def notesOf (fields : Fields) (location : String) : SchemaNotes :=
  { location, description := descriptionOf fields,
    external := (Fields.field? fields "x-codegen-type").getD .null }

def distinct (keys : List Scalar) : List Scalar :=
  keys.foldl (fun seen k => if seen.any (· == k) then seen else seen ++ [k]) []

def readRequired (fields : Fields) : Outcome (List Scalar) :=
  let value := (Fields.field? fields "required").getD .null
  if value.isTruthy then do
    let members ← need .illTyped value.members?
    let keys ← members.mapM fun m => need .illTyped m.scalar?
    pure (distinct keys)
  else .ok []

def readProperties (read : SchemaReading) (fields : Fields) (location : String) :
    Outcome (List (Scalar × Schema)) :=
  let value := (Fields.field? fields "properties").getD .null
  if value.isTruthy then do
    let entries ← need .illTyped value.fields?
    entries.mapM fun e => do
      let name ← e.1.written
      let property ← read e.2 (location ++ "/properties/" ++ name)
      pure (e.1, property)
  else .ok []

/-- Additional properties that are allowed: neither absent, null nor false. -/
def additional? (fields : Fields) : Option Tree :=
  match Fields.field? fields "additionalProperties" with
  | some (.scalar s) => if s == .null || s == .bool false then none else some (.scalar s)
  | other => other

def readValue (read : SchemaReading) (additional : Tree) (location : String) : Outcome Schema :=
  if additional.fields?.isSome then read additional (location ++ "/additionalProperties")
  else .ok (.any { location := location ++ "/additionalProperties" })

/-- An object; one without properties that allows additional ones is a map. -/
def readObject (read : SchemaReading) (fields : Fields) (notes : SchemaNotes)
    (members : List Schema) : Outcome Schema := do
  let properties ← readProperties read fields notes.location
  match additional? fields with
  | some additional =>
    if properties.isEmpty && !Fields.hasField fields "allOf" then do
      let value ← readValue read additional notes.location
      pure (.map notes value)
    else do
      let required ← readRequired fields
      pure (.object notes properties required members)
  | none => do
    let required ← readRequired fields
    pure (.object notes properties required members)

def readMembers (read : SchemaReading) (value : Tree) (location : String) :
    Outcome (List Schema) := do
  let members ← need .illTyped value.members?
  members.zipIdx.mapM fun m => read m.1 (location ++ "/allOf/" ++ toString m.2)

def readItems (read : SchemaReading) (fields : Fields) (location : String) : Outcome Schema :=
  match Fields.field? fields "items" with
  | none => .ok (.any { location := location ++ "/items" })
  | some items =>
    if items.isNull then .ok (.any { location := location ++ "/items" })
    else read items (location ++ "/items")

def isObjectNode (fields : Fields) (type : Tree) : Bool :=
  type.text? == some "object" || Fields.hasField fields "properties" ||
    Fields.hasField fields "additionalProperties"

def isBinaryNode (fields : Fields) (type : Tree) : Bool :=
  type.text? == some "file" || (type.text? == some "string" &&
    ((Fields.field? fields "format").bind Tree.text?) == some "binary")

def readPlain (fields : Fields) (notes : SchemaNotes) (type : Tree) : Outcome Schema :=
  match type with
  | .scalar (.text t) =>
    if t ∈ primitiveTypes then
      .ok (.primitive notes t ((Fields.field? fields "format").getD .null))
    else .ok (.unsupported notes ("type " ++ t))
  | .scalar .null => .ok (.any notes)
  | .scalar s => s.written.map fun name => .unsupported notes ("type " ++ name)
  | _ => .error .illTyped

def readTyped (read : SchemaReading) (fields : Fields) (notes : SchemaNotes) (type : Tree) :
    Outcome Schema :=
  match Fields.field? fields "allOf" with
  | some value => do
    let members ← readMembers read value notes.location
    readObject read fields notes members
  | none =>
    match Fields.field? fields "enum" with
    | some value => do
      let values ← need .illTyped value.members?
      pure (.enumeration notes (type.orElse (.text "string")) values)
    | none =>
      if type.text? == some "array" then do
        let items ← readItems read fields notes.location
        pure (.array notes items)
      else if isObjectNode fields type then readObject read fields notes []
      else if isBinaryNode fields type then .ok (.binary notes)
      else readPlain fields notes type

def readBody (read : SchemaReading) (fields : Fields) (notes : SchemaNotes) : Outcome Schema :=
  match unsupportedKeywords.find? (Fields.hasField fields) with
  | some keyword => .ok (.unsupported notes keyword)
  | none =>
    match typeOf? fields with
    | some type => readTyped read fields notes type
    | none => .ok (.unsupported notes "type")

/-- One node, its parts being read by `read`. -/
def readNode (scope : SchemaScope) (read : SchemaReading) : SchemaReading := fun node location =>
  match node.fields? with
  | some fields =>
    match Fields.field? fields "$ref" with
    | some ref =>
      match scope.referenceTarget? ref with
      | some target => .ok (.reference location target)
      | none => .error (.telling [ref] (.contract (.noComponent ref) location))
    | none => readBody read fields (notesOf fields location)
  | none => .error (.contract .schemaNotObject location)

def readWithin (scope : SchemaScope) : Nat → SchemaReading
  | 0 => fun _ _ => .error .endless
  | depth + 1 => scope.readNode (scope.readWithin depth)

def read (scope : SchemaScope) : SchemaReading := fun node location =>
  scope.readWithin node.size node location

end SchemaScope

end ApiContract
