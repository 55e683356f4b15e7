import ApiContract.Contract.Basic
import ApiContract.Contract.SchemaReader
import ApiContract.Path.Template
import ApiContract.Text.Case

/-! # Reading contracts

A document of either version becomes a contract: components first, then the path
items and their operations in document order. Shared parameters of a path item
come before the own ones of an operation, which replace them in place, and the
path parameters must be exactly the placeholders of the template.
-/
namespace ApiContract

def httpMethods : List String :=
  ["get", "put", "post", "delete", "options", "head", "patch", "trace"]

namespace ContractReader

def isSwagger (root : Fields) : Bool := Fields.hasField root "swagger"

def componentStart (root : Fields) : String :=
  if isSwagger root then "#/definitions/" else "#/components/schemas/"

/-- The value under a key; null when there is none. -/
def valueOf (fields : Fields) (name : String) : Tree := (Fields.field? fields name).getD .null

/-- The value under a key when it is truthy, else an empty map. -/
def mapOf (fields : Fields) (name : String) : Tree := (valueOf fields name).orElse (.map [])

def schemaTree (document : Tree) : Outcome Tree := do
  let root ← need .illTyped document.fields?
  if isSwagger root then pure (mapOf root "definitions")
  else
    let components ← need .illTyped (mapOf root "components").fields?
    pure (mapOf components "schemas")

def pathTree (document : Tree) : Outcome Tree := do
  let root ← need .illTyped document.fields?
  pure (mapOf root "paths")

def scopeOf (root : Fields) (schemas : Tree) : Outcome SchemaScope := do
  let members ← need .illTyped schemas.members?
  let names ← members.mapM fun m => need .illTyped m.scalar?
  pure { start := componentStart root, components := names }

def referenceOf? (node : Tree) : Option Tree := node.fields?.bind fun f => Fields.field? f "$ref"

/-- Follows references until a node is none, each reference text at most once. -/
def followWithin (document : Tree) (location : String) :
    Nat → List String → Tree → Outcome Tree
  | 0, _, _ => .error .endless
  | fuel + 1, seen, node =>
    match referenceOf? node with
    | none => .ok node
    | some ref =>
      match ref.text? with
      | none => .error .illTyped
      | some text =>
        if text ∈ seen then .error (.contract (.circularReference text) location)
        else match Pointer.resolve document text with
          | .ok next => followWithin document location fuel (text :: seen) next
          | .error .missing => .error (.contract (.danglingReference text) location)
          | .error failure => .error failure

def deref (document : Tree) (node : Tree) (location : String) : Outcome Tree :=
  match referenceOf? node with
  | none => .ok node
  | some _ => followWithin document location (document.size + 1) [] node

/-- What the reading of an operation depends on besides its node. -/
structure Scope where
  document : Tree
  root : Fields
  schemas : SchemaScope

def inlineKeywords : List String := ["type", "format", "items", "enum", "x-codegen-type"]

def inlineSchema (fields : Fields) : Fields :=
  inlineKeywords.filterMap fun k =>
    (Fields.field? fields k).map fun v => (Scalar.text k, v)

/-- The first schema among the media types of a parameter. -/
def readFirstMedia (scope : Scope) (location : String) : Fields → Outcome (Option Schema)
  | [] => .ok none
  | e :: rest =>
    match e.2.fields?.bind fun f => Fields.field? f "schema" with
    | some node => do
      let type ← e.1.written
      let schema ← scope.schemas.read node (location ++ "/content/" ++ type ++ "/schema")
      pure (some schema)
    | none => readFirstMedia scope location rest

def readParameterSchema (scope : Scope) (fields : Fields) (location : String) :
    Outcome (Option Schema) :=
  match Fields.field? fields "schema" with
  | some node => (scope.schemas.read node (location ++ "/schema")).map some
  | none =>
    match Fields.field? fields "content" with
    | some content => do
      let entries ← need .illTyped content.fields?
      readFirstMedia scope location entries
    | none =>
      let keywords := inlineSchema fields
      if keywords.isEmpty then .ok none
      else (scope.schemas.read (.map keywords) location).map some

/-- The media types an operation declares, else those of the document, else any. -/
def mediaTypes (scope : Scope) (operation : Fields) (key : String) : Outcome (List Scalar) := do
  let value := ((valueOf operation key).orElse (valueOf scope.root key)).orElse
    (.list [.text anyMediaType])
  let members ← need .illTyped value.members?
  members.mapM fun m => need .illTyped m.scalar?

def sameContent (schema : Schema) (types : List Scalar) : Content :=
  Table.ofPairs (types.map fun t => (t, some schema))

/-- The schema of each media type; a media type without a schema has none. -/
def readContent (scope : Scope) (value : Tree) (location : String) : Outcome Content := do
  let entries ← need .illTyped (value.orElse (.map [])).fields?
  entries.mapM fun e =>
    match e.2.fields?.bind fun f => Fields.field? f "schema" with
    | some node => do
      let type ← e.1.written
      let schema ← scope.schemas.read node (location ++ "/content/" ++ type ++ "/schema")
      pure (e.1, some schema)
    | none => pure (e.1, none)

abbrev Declared := Fields × String

/-- Parameters under their place and name. -/
abbrev Declarations := Table (Scalar × Scalar) Declared

def keyOf (place name : Tree) : Outcome (Scalar × Scalar) := do
  let p ← need .illTyped place.scalar?
  let n ← need .illTyped name.scalar?
  pure (p, n)

def addShared (scope : Scope) (location : String) (merged : Declarations) (entry : Tree × Nat) :
    Outcome Declarations := do
  let place := location ++ "/parameters/" ++ toString entry.2
  let node ← deref scope.document entry.1 place
  let fields ← need (.contract .parameterNotObject place) node.fields?
  let key ← keyOf ((Fields.field? fields "in").getD (.text ""))
    ((Fields.field? fields "name").getD (.text ""))
  pure (Table.put merged key (fields, place))

/-- The merged parameters so far, and the keys that the operation itself declared. -/
structure OwnState where
  merged : Declarations
  own : List (Scalar × Scalar) := []

def addOwn (scope : Scope) (location label : String) (state : OwnState) (entry : Tree × Nat) :
    Outcome OwnState := do
  let place := location ++ "/parameters/" ++ toString entry.2
  let node ← deref scope.document entry.1 place
  let incomplete : Failure := .contract .parameterIncomplete place
  let fields ← need incomplete node.fields?
  let named ← if Fields.hasField fields "name" then need incomplete (Fields.field? fields "in")
    else .error incomplete
  let key ← keyOf named (valueOf fields "name")
  if state.own.any (· == key) then
    .error (.telling [.scalar key.1, .scalar key.2]
      (.contract (.duplicateParameter key.1 key.2 label) place))
  else pure { merged := Table.put state.merged key (fields, place), own := key :: state.own }

def optionalMembers (value : Tree) : Outcome (List Tree) :=
  if value.isTruthy then need .illTyped value.members? else .ok []

def mergeParameters (scope : Scope) (itemLocation location label : String)
    (shared own : Tree) : Outcome Declarations := do
  let sharedNodes ← optionalMembers shared
  let merged ← sharedNodes.zipIdx.foldlM (addShared scope itemLocation) []
  let ownNodes ← optionalMembers own
  let state ← ownNodes.zipIdx.foldlM (addOwn scope location label) { merged }
  pure state.merged

def textOr (fields : Fields) (name : String) : Tree := (valueOf fields name).orElse (.text "")

/-- Adds a declared parameter to the operation, one in the body as a request body. -/
def bindDeclared (scope : Scope) (node : Fields) (op : Operation)
    (entry : (Scalar × Scalar) × Declared) : Outcome Operation := do
  let ((place, name), (fields, location)) := entry
  if place == .text "body" then
    let schema ← scope.schemas.read (mapOf fields "schema") (location ++ "/schema")
    let types ← mediaTypes scope node "consumes"
    let body : RequestBody :=
      { content := sameContent schema types, required := (valueOf fields "required").isTruthy,
        name := .scalar name, description := textOr fields "description" }
    pure { op with bodies := op.bodies ++ [body] }
  else
    let schema ← readParameterSchema scope fields location
    let parameter : Parameter :=
      { name, place, schema,
        required := (valueOf fields "required").isTruthy || place == .text "path",
        description := textOr fields "description" }
    pure { op with parameters := op.parameters ++ [parameter] }

def readRequestBody (scope : Scope) (value : Tree) (location : String) : Outcome RequestBody := do
  let node ← deref scope.document value location
  let fields ← need .illTyped node.fields?
  let content ← readContent scope (valueOf fields "content") location
  pure { content, required := (valueOf fields "required").isTruthy,
         name := valueOf fields "x-codegen-name", description := textOr fields "description" }

def addRequestBody (scope : Scope) (node : Fields) (location : String) (op : Operation) :
    Outcome Operation :=
  match Fields.field? node "requestBody" with
  | none => .ok op
  | some value => do
    let body ← readRequestBody scope value (location ++ "/requestBody")
    pure { op with bodies := op.bodies ++ [body] }

def readResponseContent (scope : Scope) (operation fields : Fields) (location : String) :
    Outcome Content :=
  if isSwagger scope.root then
    match Fields.field? fields "schema" with
    | some node => do
      let schema ← scope.schemas.read node (location ++ "/schema")
      let types ← mediaTypes scope operation "produces"
      pure (sameContent schema types)
    | none => .ok []
  else readContent scope (valueOf fields "content") location

def readResponse (scope : Scope) (operation : Fields) (location : String)
    (entry : Scalar × Tree) : Outcome Response := do
  let code ← entry.1.written
  let place := location ++ "/responses/" ++ code
  let node ← deref scope.document entry.2 place
  let fields ← need (.contract .responseNotObject place) node.fields?
  let content ← readResponseContent scope operation fields place
  pure { code, description := textOr fields "description", content }

def addResponses (scope : Scope) (node : Fields) (location : String) (op : Operation) :
    Outcome Operation := do
  let entries ← need .illTyped (mapOf node "responses").fields?
  let responses ← entries.mapM (readResponse scope node location)
  pure { op with responses := Table.ofPairs (responses.map fun r => (r.code, r)) }

def pathParameterNames (op : Operation) : List Scalar :=
  (op.parameters.filter fun p => p.place == .text "path").map Parameter.name

/-- Every placeholder is declared and every path parameter occurs in the template. -/
def checkPathParameters (op : Operation) (location : String) : Outcome Unit :=
  let places := Path.placeholders op.path
  let declared := pathParameterNames op
  match places.find? fun p => !declared.any (· == .text p) with
  | some p => .error (.contract (.missingPathParameter p op.label) location)
  | none =>
    match declared.find? fun d => !places.any (d == .text ·) with
    | some d => .error (.telling [.scalar d] (.contract (.unknownPathParameter d op.path) location))
    | none => .ok ()

def readExtensions (node : Fields) : Outcome (Table String Tree) := do
  let keyed ← node.mapM fun e => do
    let key ← need .illTyped e.1.text?
    pure (key, e.2)
  pure (keyed.filter fun e => ['x', '-'].isPrefixOf e.1.toList)

def readOperation (scope : Scope) (path method : String) (value shared : Tree) :
    Outcome Operation := do
  let location := Pointer.ofTokens ["paths", path, method]
  let node ← need (.contract .operationNotObject location) value.fields?
  let tags ← optionalMembers (valueOf node "tags")
  let extensions ← readExtensions node
  let op : Operation :=
    { method, path, tags, extensions, operationId := valueOf node "operationId",
      summary := textOr node "summary", description := textOr node "description" }
  let merged ← mergeParameters scope (Pointer.ofTokens ["paths", path]) location op.label shared
    (valueOf node "parameters")
  let withParameters ← merged.foldlM (bindDeclared scope node) op
  let withBody ← addRequestBody scope node location withParameters
  let complete ← addResponses scope node location withBody
  checkPathParameters complete location
  pure complete

/-- The first path met for each method and template shape. -/
abbrev SeenPaths := Table (String × String) String

structure ItemState where
  seen : SeenPaths
  operations : List Operation := []

def addEntry (scope : Scope) (path : String) (shared : Tree) (state : ItemState)
    (entry : Scalar × Tree) : Outcome ItemState := do
  let key ← need .illTyped entry.1.text?
  let method := String.ofList (Text.lower key.toList)
  if method ∈ httpMethods then
    let shape := (method, Path.shape path)
    match Table.get? state.seen shape with
    | some earlier =>
      .error (.contract (.duplicatePath method.toUpper path earlier)
        (Pointer.ofTokens ["paths", path, method]))
    | none =>
      let op ← readOperation scope path method entry.2 shared
      pure { seen := Table.put state.seen shape path, operations := state.operations ++ [op] }
  else pure state

structure ContractState where
  seen : SeenPaths := []
  items : List PathItem := []

def addItem (scope : Scope) (state : ContractState) (entry : Scalar × Tree) :
    Outcome ContractState := do
  let path ← need .illTyped entry.1.text?
  let location := Pointer.ofTokens ["paths", path]
  let node ← deref scope.document entry.2 location
  let fields ← need (.contract .pathItemNotObject location) node.fields?
  let final ← fields.foldlM (addEntry scope path (valueOf fields "parameters"))
    { seen := state.seen }
  pure { seen := final.seen,
         items := state.items ++ [{ template := path, operations := final.operations }] }

def readComponent (scope : SchemaScope) (entry : Scalar × Tree) : Outcome (String × Schema) := do
  let name ← need .illTyped entry.1.text?
  let schema ← scope.read entry.2 (scope.start ++ name)
  pure (name, schema)

def readRoot (document : Tree) (root : Fields) : Outcome Contract := do
  let schemas ← schemaTree document
  let schemaScope ← scopeOf root schemas
  let scope : Scope := { document, root, schemas := schemaScope }
  let info ← need .illTyped (mapOf root "info").fields?
  let title ← (textOr info "title").written
  let version ← (textOr info "version").written
  let entries ← need .illTyped schemas.fields?
  let components ← entries.mapM (readComponent schemaScope)
  let paths ← need .illTyped (mapOf root "paths").fields?
  let final ← paths.foldlM (addItem scope) {}
  pure { title, version, items := final.items, schemas := components }

def versionText (root : Fields) (key : String) : Outcome String :=
  ((Fields.field? root key).getD (.text "")).written

def isSupported (root : Fields) : Outcome Bool := do
  let openapi ← versionText root "openapi"
  let swagger ← versionText root "swagger"
  pure (['3'].isPrefixOf openapi.toList || swagger == "2.0")

end ContractReader

/-- The contract that a document describes. -/
def Contract.ofTree (document : Tree) : Outcome Contract := do
  let root ← need (.contract .rootNotObject "#") document.fields?
  if !(← ContractReader.isSupported root) then .error (.contract .unknownVersion "#")
  if ((Fields.field? root "paths").bind Tree.fields?).isSome then
    ContractReader.readRoot document root
  else .error (.contract .noPaths "#/paths")

end ApiContract
