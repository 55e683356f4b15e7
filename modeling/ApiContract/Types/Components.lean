import ApiContract.Types.Mapping

/-! # The tables of the components

A component fails when it holds an unsupported node, when it refers to a failed
component, or when its mapping fails. The tables are built anew after each failed
mapping, until a pass over the components adds no failure.
-/
namespace ApiContract.Types

abbrev Failed := Table String Fault

def unsupportedNode? (schema : Schema) : Option (String × String) :=
  schema.nodes.findSome? fun
    | .unsupported n what => some (what, n.location)
    | _ => none

def referenced (schema : Schema) : List String :=
  schema.nodes.filterMap fun
    | .reference _ name => if name.isEmpty then none else some name
    | _ => none

/-- Marks a component that holds an unsupported node, unless it is marked already. -/
def scanComponent (failed : Failed) (component : String × Schema) : Failed :=
  if Table.has failed component.1 then failed
  else match unsupportedNode? component.2 with
    | some (what, location) =>
      Table.put failed component.1 ⟨.unsupportedIn what component.1, location⟩
    | none => failed

/-- Of the failed components that a schema refers to, the first by name. -/
def firstBroken? (failed : Failed) (schema : Schema) : Option String :=
  (((referenced schema).filter (Table.has failed)).mergeSort fun a b => a ≤ b).head?

def spreadComponent (failed : Failed) (component : String × Schema) : Failed :=
  if Table.has failed component.1 then failed
  else match firstBroken? failed component.2 with
    | some target =>
      let place := ((Table.get? failed target).map Fault.location).getD ""
      Table.put failed component.1
        ⟨.componentDependsOn component.1 target place, component.2.location⟩
    | none => failed

def spread (contract : Contract) (failed : Failed) : Failed :=
  contract.schemas.foldl spreadComponent failed

/-- Spreads failure often enough: every pass that changes anything marks a component. -/
def findFailures (contract : Contract) (failed : Failed) : Failed :=
  (List.range contract.schemas.length).foldl (fun f _ => spread contract f)
    (contract.schemas.foldl scanComponent failed)

def mapComponent (contract : Contract) (name : String) (schema : Schema) : Step Unit := do
  let t ← Step.tables
  let javaName ← Step.lift (need .missing (Table.get? t.typeNames name))
  if schema.isExternal then pure ()
  else match schema with
    | .object .. =>
      buildBean contract (mapWithin contract (depthBound contract 0)) javaName schema
    | .enumeration _ _ values => buildEnum javaName schema values
    | _ => do
      let _ ← reference contract name schema.location
      pure ()

/-- Takes back what a failed component entered and marks it. -/
def failComponent (mark : TypeTables.Mark) (name : String) (fault : Fault) : Step Unit := do
  let own : Fault := ⟨.inComponent name fault.fault, fault.location⟩
  Step.modifyTables fun t =>
    let back := t.rollback mark
    { back with failed := Table.put back.failed name own }
  Step.record (.componentFailed name fault.fault.kind)

/-- Maps the components up to the first that fails; tells whether none did. -/
def mapComponents (contract : Contract) : List (String × Schema) → Step Bool
  | [] => pure true
  | (name, schema) :: rest => do
    let t ← Step.tables
    if Table.has t.failed name then mapComponents contract rest
    else
      match ← Step.attempt (mapComponent contract name schema) with
      | .ok _ => mapComponents contract rest
      | .error fault =>
        failComponent t.mark name fault
        pure false

def startPass (contract : Contract) (t : TypeTables) : TypeTables :=
  let fresh := t.reset contract
  { fresh with failed := findFailures contract fresh.failed }

def buildPasses (contract : Contract) : Nat → Step Unit
  | 0 => Step.fail .endless
  | passes + 1 => do
    Step.modifyTables (startPass contract)
    let complete ← mapComponents contract contract.schemas
    if complete then pure () else buildPasses contract passes

def failureDiagnostics (contract : Contract) (failed : Failed) : List Diagnostic :=
  contract.schemas.filterMap fun s => (Table.get? failed s.1).map Fault.diagnostic

/-- Builds the tables of all components; one diagnostic for each that failed. -/
def buildTables (contract : Contract) : Step (List Diagnostic) := do
  buildPasses contract (contract.schemas.length + 1)
  let t ← Step.tables
  Step.record (.tablesBuilt t.beans.length t.enums.length t.failed.length)
  pure (failureDiagnostics contract t.failed)

end ApiContract.Types
