import ApiContract.Naming.Method
import ApiContract.Run.Workspace
import ApiContract.Settings
import ApiContract.Tree.Written

/-! # Resources

Operations are grouped into resources by a hint, by their first tag or by their
first static segment. A resource has the longest leading static path that its
operations share, and a method name that comes up twice is told apart by what
its path and parameters add.
-/
namespace ApiContract

structure Endpoint where
  operation : Operation
  methodName : String
  relativePath : String

structure Resource where
  name : String
  path : String
  key : Tree
  endpoints : List Endpoint := []

namespace Grouping

def hint (op : Operation) : Tree := op.extension "x-codegen-resource"

def key (settings : Settings) (op : Operation) : Outcome Tree :=
  if (hint op).isTruthy then (hint op).written.map Tree.text
  else match settings.groupByTags, op.tags with
    | true, tag :: _ => .ok tag
    | _, _ => .ok (.text ((Path.staticSegments op.path).headD ""))

/-- Whether a hint or a tag decides on the resource of an operation. -/
def isHinted (settings : Settings) (op : Operation) : Bool :=
  (hint op).isTruthy || (settings.groupByTags && !op.tags.isEmpty)

def resourceName (key : Tree) : Outcome String :=
  if key.isTruthy then (need .illTyped key.text?).map Naming.resourceName
  else .ok (Naming.resourceName "")

/-- The name an operation gives itself, else the one its method and path make up. -/
def methodName (op : Operation) : Outcome String :=
  if op.operationId.isTruthy then
    (need .illTyped op.operationId.text?).map Naming.explicitMethodName
  else .ok (Naming.derivedMethodName op.method op.path)

def commonStart : List String → List String → List String
  | a :: as, b :: bs => if a = b then a :: commonStart as bs else []
  | _, _ => []

/-- The longest leading static path that all templates share. -/
def sharedStart : List (List String) → List String
  | [] => []
  | first :: rest => rest.foldl commonStart first

def resourcePath (settings : Settings) (ops : List Operation) : String :=
  let shared := sharedStart (ops.map fun op => Path.leadingStatic op.path)
  let kept := if ops.any (isHinted settings) then shared else shared.take 1
  "/" ++ "/".intercalate kept

/-- What a template adds to the path of its resource. -/
def relativePath (template resourcePath : String) : String :=
  let chars := template.toList
  let relative := Path.dropSlashes
    (if resourcePath = "/" then chars else chars.drop resourcePath.length)
  String.ofList (match relative with
    | [] => []
    | '/' :: rest => '/' :: rest
    | rest => '/' :: rest)

def joinTypeNames (joint : String) (names : List String) : String :=
  joint.intercalate (names.map Naming.typeName)

/-- The type names of parameters; a name that is no text has none. -/
def parameterTypeNames (op : Operation) : Outcome (List String) :=
  op.parameters.mapM fun p => (need .illTyped p.name.text?).map Naming.typeName

/-- Names for an operation whose own name is taken, the most specific first. -/
def discriminators (op first : Operation) (base : String) : Outcome (List String) := do
  let known := Path.staticSegments first.path
  let differing := (Path.staticSegments op.path).filter fun s => s ∉ known
  let places := Path.placeholders op.path
  let byPath := if differing.isEmpty then [] else [base ++ joinTypeNames "" differing]
  let byLast := match places.getLast? with
    | some p => [base ++ "By" ++ Naming.typeName p]
    | none => []
  let byAll := if places.length > 1 then [base ++ "By" ++ joinTypeNames "And" places] else []
  let names ← parameterTypeNames op
  let withAll := if names.isEmpty then [] else [base ++ "With" ++ "And".intercalate names]
  pure (byPath ++ byLast ++ byAll ++ withAll)

/-- The names in use, who has each of them, and the endpoints named so far. -/
structure NamingState where
  taken : List String
  owners : Table String Operation := []
  named : List Endpoint := []

def labelsOf (endpoints : List Endpoint) (name : String) : List String :=
  (endpoints.filter fun e => e.methodName == name).map fun e => e.operation.label

def nameEndpoint (resource : Resource) (state : NamingState) (e : Endpoint) :
    Outcome NamingState :=
  match Table.get? state.owners e.methodName with
  | none =>
    .ok { state with owners := Table.put state.owners e.methodName e.operation,
                     named := state.named ++ [e] }
  | some first => do
    let candidates ← discriminators e.operation first e.methodName
    match candidates.find? fun c => c ∉ state.taken with
    | some name =>
      pure { taken := name :: state.taken, owners := Table.put state.owners name e.operation,
             named := state.named ++ [{ e with methodName := name }] }
    | none =>
      .error (.naming
        { method := e.methodName, resource := resource.name,
          labels := labelsOf resource.endpoints e.methodName }
        e.operation.label)

/-- The resource with distinct method names; the first operation keeps its name. -/
def distinguish (resource : Resource) : Outcome Resource := do
  let taken := resource.endpoints.map Endpoint.methodName
  let final ← resource.endpoints.foldlM (nameEndpoint resource) { taken }
  pure { resource with endpoints := final.named }

/-- The operations of one resource, under the key of the first. -/
structure Group where
  key : Tree
  operations : List Operation

def addOperation (settings : Settings) (groups : Table String Group) (op : Operation) :
    Outcome (Table String Group) := do
  let k ← key settings op
  let name ← resourceName k
  let group := (Table.get? groups name).getD { key := k, operations := [] }
  pure (Table.put groups name { group with operations := group.operations ++ [op] })

def groupsOf (contract : Contract) (settings : Settings) : Outcome (Table String Group) :=
  contract.operations.foldlM (addOperation settings) []

def endpointOf (path : String) (op : Operation) : Outcome Endpoint := do
  let name ← methodName op
  pure { operation := op, methodName := name, relativePath := relativePath op.path path }

def resourceOf (settings : Settings) (name : String) (group : Group) : Outcome Resource := do
  let path := resourcePath settings group.operations
  let endpoints ← group.operations.mapM (endpointOf path)
  pure { name, path, key := group.key, endpoints }

structure Grouped where
  resources : List Resource := []
  diagnostics : List Diagnostic := []

/-- Adds a resource, or a diagnostic when its methods cannot be told apart. -/
def addResource (settings : Settings) (grouped : Grouped) (entry : String × Group) :
    Step Grouped := do
  let resource ← Step.lift (resourceOf settings entry.1 entry.2)
  match distinguish resource with
  | .ok named =>
    Step.record (.resourceGrouped resource.name entry.2.operations.length)
    pure { grouped with resources := grouped.resources ++ [named] }
  | .error (.naming clash location) =>
    Step.record (.resourceDropped resource.name clash.message)
    let d : Diagnostic := ⟨NameClash.kind, location, clash.message⟩
    pure { grouped with diagnostics := grouped.diagnostics ++ [d] }
  | .error failure => Step.fail failure

/-- The resources of a contract in the order of their first operations. -/
def group (contract : Contract) (settings : Settings) : Step Grouped := do
  let groups ← Step.lift (groupsOf contract settings)
  groups.foldlM (addResource settings) {}

end Grouping

end ApiContract
