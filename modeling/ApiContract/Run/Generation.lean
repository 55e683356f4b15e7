import ApiContract.Contract.Reader
import ApiContract.Source.Artifact
import ApiContract.Types.Components

/-! # Generation

A run builds the type tables, groups and signs the operations, and prints every
resource, bean and enum once for each dialect. Faults of single schemas, names and
operations become diagnostics, and everything else is still printed.
-/
namespace ApiContract

structure Generated where
  artifacts : Table String (List Artifact) := []
  diagnostics : List Diagnostic := []

def Generated.ok (g : Generated) : Bool := g.diagnostics.isEmpty

def Generated.all (g : Generated) : List Artifact := (Table.values g.artifacts).flatten

namespace Generation

structure Model where
  resources : List Resource
  beans : List Bean
  enums : List EnumType

/-- Every artifact of a dialect: resources, then beans, then enums. -/
def render (settings : Settings) (model : Model) (dialect : Dialect) : Step (List Artifact) := do
  let signatures := (← get).signatures
  let resources ← Step.lift
    (model.resources.mapM (Artifact.ofResource signatures dialect settings))
  let beans ← Step.lift (model.beans.mapM (Artifact.ofBean dialect settings))
  let enums ← Step.lift (model.enums.mapM (Artifact.ofEnum dialect settings))
  Step.record (.artifactsRendered dialect.name model.resources.length model.beans.length
    model.enums.length)
  pure (resources ++ beans ++ enums)

def addDialect (settings : Settings) (model : Model) (artifacts : Table String (List Artifact))
    (dialect : Dialect) : Step (Table String (List Artifact)) := do
  let rendered ← render settings model dialect
  pure (Table.put artifacts dialect.name rendered)

def report (contract : Contract) (resources : Nat) (diagnostics : List Diagnostic) :
    Step Unit := do
  for d in diagnostics do
    Step.record (.diagnosed d)
  Step.record (.finished contract.title resources diagnostics.length)

/-- Generates from a contract, in a workspace that holds only its component names. -/
def fromContract (contract : Contract) (settings : Settings) : Step Generated := do
  let tableDiagnostics ← Types.buildTables contract
  let grouped ← Signature.resolveResources contract settings
  let diagnostics := tableDiagnostics ++ grouped.diagnostics
  let t ← Step.tables
  let model : Model :=
    { resources := grouped.resources, beans := Table.values t.beans,
      enums := Table.values t.enums }
  let artifacts ← settings.dialects.foldlM (addDialect settings model) []
  report contract grouped.resources.length diagnostics
  pure { artifacts, diagnostics }

end Generation

/-- What is generated from a document, with the workspace of the run. -/
def generate (document : Tree) (settings : Settings) :
    EStateM.Result Failure Workspace Generated :=
  match Contract.ofTree document with
  | .ok contract => (Generation.fromContract contract settings).run (.fresh contract)
  | .error failure => .error failure {}

end ApiContract
