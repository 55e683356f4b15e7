import ApiContract.Endpoint.Grouping
import ApiContract.Types.Mapping

/-! # Signatures

The signature of an operation binds the path parameters in template order, then
the header and the query parameters in declaration order, then at most one body.
Its return type is that of the primary success response. A dialect changes only
how the return type is expressed.
-/
namespace ApiContract

namespace Signature

def expressed (type : TypeRef) (isAsync : Bool) (dialect : Dialect) : TypeRef :=
  let plain :=
    if type.kind == .rawResponse && !dialect.supportsRawResponse then TypeRef.binary else type
  if isAsync && dialect.supportsAsync then .async plain else plain

def returnTypeFor (s : Signature) (dialect : Dialect) : TypeRef :=
  expressed s.returnType s.isAsync dialect

def boundPlaces : List String := ["path", "query", "header"]

def isBoundPlace (place : Scalar) : Bool := boundPlaces.any fun p => place == .text p

def defaultBodyName : String := "data"

/-- The name of a body; a name that is no text has none. -/
def bodyName (body : RequestBody) : Outcome Scalar :=
  if body.name.isTruthy then need .illTyped body.name.scalar?
  else .ok (.text defaultBodyName)

def bodyNameText (body : RequestBody) : Outcome String :=
  (bodyName body).bind fun n => need .illTyped n.text?

/-- Every parameter has a place that can be bound, and there is at most one body. -/
def checkBindable (op : Operation) : Outcome Unit :=
  match op.parameters.find? fun p => !isBoundPlace p.place with
  | some p =>
    .error (.telling [.scalar p.place, .scalar p.name]
      (.schema (.unboundParameter p.place p.name) op.label))
  | none =>
    if op.bodies.length > 1 then do
      let names ← op.bodies.mapM bodyNameText
      .error (.schema (.severalBodies names) op.label)
    else .ok ()

def parametersIn (op : Operation) (place : String) : List Parameter :=
  op.parameters.filter fun p => p.place == .text place

def placeholderIndex (places : List String) (p : Parameter) : Nat :=
  places.findIdx fun name => p.name == .text name

def orderedParameters (op : Operation) : List Parameter :=
  let places := Path.placeholders op.path
  let inPath := (parametersIn op "path").mergeSort fun a b =>
    placeholderIndex places a ≤ placeholderIndex places b
  inPath ++ parametersIn op "header" ++ parametersIn op "query"

/-- An identifier that is not used yet; the place of the parameter comes in first. -/
def freeIdentifier (name place : String) (used : List String) : String :=
  let id := Naming.identifier name
  let base := if id ∈ used then id ++ Naming.typeName place else id
  Naming.fresh used base ""

def identifierOf (name place : Scalar) (used : List String) : Outcome String := do
  let n ← need .illTyped name.text?
  let p ← need .illTyped place.text?
  pure (freeIdentifier n p used)

def parameterType (contract : Contract) (p : Parameter) (method : String) : Step TypeRef :=
  match p.schema with
  | none => pure (.primitive "string" none)
  | some s => Types.mapSchema contract (some s) method p.name

def bindParameter (contract : Contract) (method : String) (bound : List Binding)
    (p : Parameter) : Step (List Binding) := do
  let identifier ← Step.lift (identifierOf p.name p.place (bound.map Binding.identifier))
  let type ← parameterType contract p method
  let binding : Binding :=
    { name := p.name, identifier, place := p.place, type, required := p.required,
      description := p.description }
  pure (bound ++ [binding])

/-- What tells the schemas of two media types apart. -/
inductive SchemaKey
  | absent
  | reference (name : String)
  | binary
  | inline (location : String)
  deriving DecidableEq

def schemaKey : Option Schema → SchemaKey
  | none => .absent
  | some (.reference _ name) => .reference name
  | some (.binary _) => .binary
  | some s => .inline s.location

/-- Whether there is at least one schema and all of them have one key. -/
def isUniform (schemas : List (Option Schema)) : Bool :=
  match schemas with
  | [] => false
  | first :: rest => rest.all fun s => schemaKey s == schemaKey first

def bodyType (contract : Contract) (body : RequestBody) (method : String) : Step TypeRef :=
  match Table.values body.content with
  | [] => pure .binary
  | schema :: rest =>
    if !isUniform (schema :: rest) then pure .binary
    else match schema with
      | none => pure .binary
      | some s => do
        let binary ← Step.lift (contract.isBinary (some s))
        if binary then pure .binary
        else Types.mapSchema contract (some s) method (.text "Body")

/-- The media types to declare; the wildcard alone goes without saying. -/
def declared (content : Content) : List Scalar :=
  match Table.keys content with
  | [only] => if only == .text anyMediaType then [] else [only]
  | types => types

def bindBody (contract : Contract) (method : String) (bound : List Binding)
    (body : RequestBody) : Step (List Binding) := do
  let name ← Step.lift (bodyName body)
  let identifier ← Step.lift (identifierOf name (.text "body") (bound.map Binding.identifier))
  let type ← bodyType contract body method
  let binding : Binding :=
    { name, identifier, place := .text "body", type, required := body.required,
      description := body.description }
  pure (bound ++ [binding])

/-- The order of success codes: a range code comes behind all codes of its hundred. -/
def statusOrder (code : String) : Outcome Nat :=
  let chars := code.toList
  if !chars.isEmpty && chars.all Text.isDigitLike then need .notNumber (Text.numeral? chars)
  else do
    let hundred ← need .notNumber (chars.head?.bind Text.decimalValue?)
    pure (hundred * 100 + 99)

def candidates (op : Operation) : List Response :=
  (Table.values op.responses).filter fun r => r.isSuccess && !r.content.isEmpty

/-- The first of the responses with the least order. -/
def leastResponse (first : Response) (rest : List Response) : Outcome Response := do
  let start ← statusOrder first.code
  let best ← rest.foldlM
    (fun (best : Response × Nat) r => do
      let order ← statusOrder r.code
      pure (if order < best.2 then (r, order) else best))
    (first, start)
  pure best.1

def contentShape (r : Response) : List (Scalar × SchemaKey) :=
  r.content.map fun e => (e.1, schemaKey e.2)

def isAmbiguous : List Response → Bool
  | [] => false
  | first :: rest => rest.any fun r => contentShape r != contentShape first

def primaryResponse (settings : Settings) (op : Operation) : Step (Option Response) :=
  match candidates op with
  | [] => pure none
  | first :: rest => do
    let primary ← match settings.responseRule with
      | .first => pure first
      | .lowest => Step.lift (leastResponse first rest)
    if isAmbiguous (first :: rest) then
      Step.record (.ambiguousResponse op.label ((first :: rest).map Response.code) primary.code
        settings.responseRule.name)
    pure (some primary)

def responseType (contract : Contract) (r : Response) (method : String) : Step TypeRef :=
  match r.content with
  | [(_, some s)] => do
    let binary ← Step.lift (contract.isBinary (some s))
    if binary then pure .rawResponse
    else Types.mapSchema contract (some s) method (.text "Response")
  | _ => pure .rawResponse

/-- The signature, with nothing taken back on a failure. -/
def build (contract : Contract) (settings : Settings) (op : Operation) (method : String) :
    Step Signature := do
  Step.lift (checkBindable op)
  let bound ← (orderedParameters op).foldlM (bindParameter contract method) []
  let withBody ← match op.bodies with
    | [] => pure bound
    | body :: _ => bindBody contract method bound body
  let consumes := match op.bodies with
    | [] => []
    | body :: _ => declared body.content
  let primary ← primaryResponse settings op
  let returnType ← match primary with
    | none => pure TypeRef.void
    | some r => responseType contract r method
  let produces := match primary with
    | none => []
    | some r => declared r.content
  if op.isAsync && returnType.kind == .void then
    Step.fail (.schema .asyncWithoutBody op.label)
  else
    pure { methodName := method, parameters := withBody, returnType, isAsync := op.isAsync,
           produces, consumes }

/-- The signature of an operation; a schema fault takes back the types it entered. -/
def resolve (contract : Contract) (settings : Settings) (op : Operation) (method : String) :
    Step Signature := do
  let t ← Step.tables
  match ← Step.attempt (build contract settings op method) with
  | .ok signature => pure signature
  | .error fault =>
    Step.modifyTables (·.rollback t.mark)
    Step.fail (.schema fault.fault fault.location)

/-- Stores the signature of an operation, which can be done once. -/
def assign (op : Operation) (signature : Signature) : Step Unit := fun w =>
  if Table.has w.signatures op.label then .error (.alreadySigned op.label) w
  else .ok () { w with signatures := Table.put w.signatures op.label signature }

/-- The endpoints of a resource that got a signature, and the diagnostics of the others. -/
structure SignedState where
  kept : List Endpoint := []
  diagnostics : List Diagnostic := []

def signEndpoint (contract : Contract) (settings : Settings) (resource : String)
    (state : SignedState) (e : Endpoint) : Step SignedState := do
  match ← Step.attempt (resolve contract settings e.operation e.methodName) with
  | .ok signature =>
    assign e.operation signature
    pure { state with kept := state.kept ++ [e] }
  | .error fault =>
    Step.record (.operationFailed resource e.operation.label fault.fault.kind)
    pure { state with diagnostics := state.diagnostics ++ [fault.diagnostic] }

def signResource (contract : Contract) (settings : Settings) (state : Grouping.Grouped)
    (resource : Resource) : Step Grouping.Grouped := do
  let signed ← resource.endpoints.foldlM (signEndpoint contract settings resource.name)
    { diagnostics := state.diagnostics }
  let kept := if signed.kept.isEmpty then [] else [{ resource with endpoints := signed.kept }]
  pure { resources := state.resources ++ kept, diagnostics := signed.diagnostics }

def resolveResources (contract : Contract) (settings : Settings) : Step Grouping.Grouped := do
  let grouped ← Grouping.group contract settings
  grouped.resources.foldlM (signResource contract settings)
    { diagnostics := grouped.diagnostics }

end Signature

end ApiContract
