import ApiContract.Proofs.Endpoint.Building
import ApiContract.Proofs.Run.Reachable

/-! # No lookup misses in a contract that was read

The references of a contract lead to its components, and tables that fresh ones are led to
have a type name for each of them. So neither building the tables nor mapping a schema of the
contract nor giving an operation of it a signature looks up a name that is not there.
-/
namespace ApiContract

open ApiContract.Types Step

variable {contract : Contract}

theorem Types.Call.listed {t t' : TypeTables} (h : Call contract t t') (ht : Listed contract t) :
    Listed contract t' := by
  have hk := Excludes.nothing contract
  cases h with
  | mapSchema schema owner role w =>
    exact (finding_mapSchema hk schema owner role (fun s _ => .nothing contract s) nofun w ht).2
  | reference name location w => exact (guards_reference hk nofun location w ht).2
  | synthesizeName owner role w =>
    have hguards : Guards (Listed contract) (fun _ => false) (Types.synthesizeName owner role) :=
      guards_synthesizeName (admits_listed contract) owner nofun
    exact (hguards w ht).2
  | resolve settings op method w =>
    exact (Signature.listed_resolve hk (op.avoids_nothing contract settings)
      (fun s _ => .nothing contract s) method w ht).2

theorem Types.Reachable.listed {marks : List TypeTables.Mark} {t : TypeTables}
    (h : Reachable contract marks t) : Listed contract t := by
  induction h with
  | fresh => exact listed_reset contract {}
  | call _ called ih => exact called.listed ih
  | build _ ih => exact (guards_buildTables (Excludes.nothing contract) _ ih).2
  | mark _ ih => exact ih
  | rollback _ ih => exact ih
  | forget _ ih => exact ih

namespace Contract

/-- Schemas whose references lead to components and whose forms have their parts, and
operations whose path parameters are the placeholders and whose parameters are apart. -/
structure WellFormed (contract : Contract) : Prop where
  references : ∀ s ∈ contract.roots, ∀ location target,
    .reference location target ∈ s.nodes → target ∈ Table.keys contract.schemas
  items : ∀ s ∈ contract.roots, ∀ n ∈ s.nodes, n.isArray = true → n.items?.isSome
  values : ∀ s ∈ contract.roots, ∀ n ∈ s.nodes, n.isMap = true → n.value?.isSome
  objects : ∀ s ∈ contract.roots, ∀ n ∈ s.nodes,
    n.properties ≠ [] ∨ n.members ≠ [] → n.isObject = true
  placeholders : ∀ op ∈ contract.operations, ∀ name,
    name ∈ ContractReader.pathParameterNames op ↔ ∃ n ∈ Path.placeholders op.path, name = .text n
  apart : ∀ op ∈ contract.operations,
    (op.parameters.map ContractReader.keyOfParameter).Pairwise fun k l => (k == l) = false

/-- No lookup for the components and operations of the contract misses in the workspace. -/
structure Finds (contract : Contract) (w : Workspace) : Prop where
  build : Avoids Failure.isMissing (buildTables contract) w
  map : ∀ s ∈ contract.roots, ∀ n ∈ s.nodes, ∀ owner role,
    Avoids Failure.isMissing (mapSchema contract (some n) owner role) w
  reference : ∀ c ∈ Table.keys contract.schemas, ∀ location,
    Avoids Failure.isMissing (Types.reference contract c location) w
  target : ∀ s ∈ contract.roots, ∀ n ∈ s.nodes, (contract.target n).Avoids Failure.isMissing
  isBinary : ∀ s ∈ contract.roots, ∀ n ∈ s.nodes,
    (contract.isBinary (some n)).Avoids Failure.isMissing
  resolve : ∀ settings, ∀ op ∈ contract.operations, ∀ method,
    Avoids Failure.isMissing (Signature.resolve contract settings op method) w

theorem Closed.finds (h : contract.Closed) {w : Workspace} (hw : Listed contract w.tables) :
    contract.Finds w := by
  have hk := Excludes.missing h
  have hnode : ∀ s ∈ contract.roots, ∀ n ∈ s.nodes, ∀ t, some n = some t →
      Reaching contract Failure.isMissing t := by
    rintro s hs n hn _ ⟨⟩
    exact .missing ((h s hs).node hn)
  have hop : ∀ op ∈ contract.operations, ∀ s ∈ op.schemas, Reaching contract Failure.isMissing s :=
    fun op hop s hs =>
      .missing (h s (List.mem_append_right _ (List.mem_flatMap.mpr ⟨op, hop, hs⟩)))
  have havoids : ∀ settings, ∀ op ∈ contract.operations,
      op.Avoids contract settings Failure.isMissing := fun settings op ho =>
    { schema := fun _ _ => rfl
      named := fun ht => ht.elim nofun nofun
      numbered := fun _ r _ => Signature.avoids_statusOrder rfl r.code
      binary := hk.binary (hop op ho) }
  exact {
    build := (guards_buildTables hk).avoids hw
    map := fun s hs n hn owner role =>
      (finding_mapSchema hk _ owner role (hnode s hs n hn) nofun).avoids hw
    reference := fun c hc location => (guards_reference hk (fun _ => hc) location).avoids hw
    target := fun s hs n hn => (yields_target hk.hereditary (hnode s hs n hn n rfl)).avoids
    isBinary := fun s hs n hn => (yields_isBinary hk (hnode s hs n hn)).avoids
    resolve := fun settings op ho method =>
      (Signature.listed_resolve hk (havoids settings op ho) (hop op ho) method).avoids hw }

/-- A contract that was read is well formed, and in no workspace that its stages come to
does a lookup miss. -/
theorem wellFormed_of_ofTree {document : Tree} {contract : Contract}
    (parsed : Contract.ofTree document = .ok contract) :
    contract.WellFormed ∧ ∀ marks w, Reachable contract marks w.tables → contract.Finds w := by
  have hclosed := closed_of_ofTree parsed
  have hdeclares := declares_of_ofTree parsed
  refine ⟨?_, fun marks w reachable => hclosed.finds reachable.listed⟩
  exact {
    references := hclosed
    items := by
      rintro s - n - hn
      cases n <;> first | rfl | cases hn
    values := by
      rintro s - n - hn
      cases n <;> first | rfl | cases hn
    objects := by
      rintro s - n - hn
      cases n <;> first | rfl | simp [Schema.properties, Schema.members] at hn
    placeholders := by
      intro op hop name
      rw [ContractReader.mem_pathParameterNames]
      constructor
      · rintro ⟨p, hp, hplace, rfl⟩
        exact (hdeclares op hop).occurring p hp hplace
      · rintro ⟨n, hn, rfl⟩
        exact (hdeclares op hop).placeholders n hn
    apart := fun op hop => (hdeclares op hop).apart }

/-- Clients with references from a shared parameter, a body, a response and each other. -/
def clientsDocument : Tree :=
  let json (schema : Tree) : Tree :=
    .map [(.text "content", .map [(.text "application/json", .map [(.text "schema", schema)])])]
  .map [
    (.text "openapi", .text "3.0.0"),
    (.text "paths", .map [
      (.text "/clients/\x7bid\x7d", .map [
        (.text "parameters", .list [.map [
          (.text "name", .text "id"), (.text "in", .text "path"), (.text "required", .bool true),
          (.text "schema", linkTo "#/components/schemas/Id")]]),
        (.text "put", .map [
          (.text "requestBody", json (linkTo "#/components/schemas/Client")),
          (.text "responses", .map [(.text "200", json (.map [
            (.text "type", .text "array"),
            (.text "items", linkTo "#/components/schemas/Client")]))])])])]),
    (.text "components", .map [(.text "schemas", .map [
      (.text "Id", .map [(.text "type", .text "string")]),
      (.text "Client", .map [
        (.text "type", .text "object"),
        (.text "properties", .map [
          (.text "id", linkTo "#/components/schemas/Id"),
          (.text "friends", .map [
            (.text "type", .text "object"),
            (.text "additionalProperties", linkTo "#/components/schemas/Client")])])])])])]

theorem wellFormed_of_ofTree_clients :
    ∃ contract, Contract.ofTree clientsDocument = .ok contract ∧
      contract.roots.flatMap referenced = ["Id", "Client", "Id", "Client", "Client"] ∧
      contract.WellFormed ∧
      Reachable contract [] (Workspace.fresh contract).tables ∧
      contract.Finds (.fresh contract) := by
  obtain ⟨contract, parsed, hreferenced⟩ := Outcome.exists_of_map_toOption
    (o := Contract.ofTree clientsDocument) (f := fun c => c.roots.flatMap referenced)
    (b := ["Id", "Client", "Id", "Client", "Client"]) (by decide +kernel)
  obtain ⟨hformed, hfinds⟩ := wellFormed_of_ofTree parsed
  exact ⟨contract, parsed, hreferenced, hformed, .fresh, hfinds [] _ .fresh⟩

end Contract

end ApiContract
