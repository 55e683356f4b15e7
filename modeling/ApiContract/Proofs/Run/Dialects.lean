import ApiContract.Proofs.Run.Reachable
import ApiContract.Proofs.Run.Signed
import ApiContract.Proofs.Source.Dialects

/-! # The dialects of a run

Whatever was mapped before, the types in reachable tables are types that mapping makes. So
the signatures that a contract gets have parameters that are the same in each dialect, and
the interfaces of its resources differ only where dialects express a return type in their way.
-/
namespace ApiContract

open Outcome Source

variable {contract : Contract} {settings : Settings} {P : TypeRef → Prop}

namespace Types

theorem Call.holding (made : TypeRef.Made P) {t t' : TypeTables} (h : Call contract t t')
    (ht : t.Holding P) : t'.Holding P := by
  cases h with
  | mapSchema schema owner role w => exact (giving_mapSchema made schema owner role w ht).2
  | reference name location w => exact (gives_reference made name location w ht).2
  | synthesizeName owner role w => exact (retains_synthesizeName owner role w ht).2
  | resolve settings op method w => exact (Signature.shaped_resolve made op method w ht).2

/-- What mapping keeps of the types that it makes holds of all reachable tables. -/
theorem Reachable.holding (made : TypeRef.Made P) {marks : List TypeTables.Mark} {t : TypeTables}
    (h : Reachable contract marks t) : t.Holding P := by
  induction h with
  | fresh => exact (TypeTables.blank_reset {} contract).holding
  | call _ called ih => exact called.holding made ih
  | build _ ih => exact (retains_buildTables made _ ih).2
  | mark _ ih => exact ih
  | @rollback mark _ _ _ ih => exact ih.rollback mark
  | forget _ ih => exact ih

end Types

namespace Signature

/-- Each endpoint that is left in a resource has a signature in the types of which no dialect
is seen, but for a raw response as a whole. -/
theorem shaped_of_resolveResources {document : Tree}
    (parsed : Contract.ofTree document = .ok contract) {final : Grouping.Grouped}
    {w w' : Workspace} (hw : w.tables.Holding TypeRef.Fixed)
    (h : resolveResources contract settings w = .ok final w') :
    ∀ r ∈ final.resources, ∀ e ∈ r.endpoints, ∃ s,
      Table.get? w'.signatures e.label = some s ∧ s.Shaped TypeRef.Fixed e.operation := by
  obtain ⟨grouped, v, refused, hgroup, htables, -, hattempts, -⟩ := resolveResources_eq_ok h
  have apart := nodup_labels_of_group (Contract.nodup_labels parsed) hgroup
  have hall := hattempts.yields_each (shaped_resolve TypeRef.made_fixed) apart (htables ▸ hw)
  exact fun r hr e he => hall e (List.mem_flatMap.mpr ⟨r, hr, he⟩)

end Signature

namespace Source

/-- The interfaces of a resource that has its signatures agree in any two dialects on all but
their imports, their descriptions and such return types as the dialects express in different
ways. In each dialect there is an interface exactly when the comments, the media types and the
parameter names of all methods can be written; where one dialect has none, neither has the
other, for the same reason. -/
theorem sameInterface_of_resolveResources {document : Tree}
    (parsed : Contract.ofTree document = .ok contract) {marks : List TypeTables.Mark}
    {w w' : Workspace} {final : Grouping.Grouped}
    (reachable : Types.Reachable contract marks w.tables)
    (h : Signature.resolveResources contract settings w = .ok final w') (printing : Settings)
    (d d' : Dialect) :
    ∀ r ∈ final.resources,
      Agrees (SameInterface w'.signatures d d' r) (resourceUnit w'.signatures d printing r)
          (resourceUnit w'.signatures d' printing r) ∧
        (Succeeds (resourceUnit w'.signatures d printing r) ↔ ∀ e ∈ r.endpoints, ∃ s,
          Table.get? w'.signatures e.label = some s ∧ Legible e s) := by
  have hw : w.tables.Holding TypeRef.Fixed := reachable.holding TypeRef.made_fixed
  have hshaped := Signature.shaped_of_resolveResources parsed hw h
  intro r hr
  have hagrees := agrees_resourceUnit printing d d' (hshaped r hr)
  exact ⟨hagrees, succeeds_resourceUnit printing d (hshaped r hr)⟩

/-- A document with an asynchronous operation that returns a file, and one that takes a number
and returns a list of texts. -/
def downloadsDocument : Tree :=
  .map [
    (.text "openapi", .text "3.0.0"),
    (.text "paths", .map [
      (.text "/files", .map [
        (.text "get", .map [
          (.text "x-codegen-async", .scalar (.bool true)),
          (.text "responses", .map [
            (.text "200", .map [(.text "content", .map [(.text "application/octet-stream", .map [
              (.text "schema", .map [(.text "type", .text "string"),
                (.text "format", .text "binary")])])])])])])]),
      (.text "/names", .map [
        (.text "get", .map [
          (.text "parameters", .list [.map [
            (.text "name", .text "limit"), (.text "in", .text "query"),
            (.text "schema", .map [(.text "type", .text "integer")])]]),
          (.text "responses", .map [
            (.text "200", .map [(.text "content", .map [(.text "application/json", .map [
              (.text "schema", .map [(.text "type", .text "array"),
                (.text "items", .map [(.text "type", .text "string")])])])])])])])])])]

/-- The return types and the parameters of the methods of a contract in a dialect. -/
def methodTexts (contract : Contract) (d : Dialect) : List (List (String × List String)) :=
  match Signature.resolveResources contract {} (.fresh contract) with
  | .ok final w => ((final.resources.mapM (resourceUnit w.signatures d {})).toOption.getD []).map
      fun u => u.methods.map fun m => (m.returnType, m.parameters)
  | .error _ _ => []

theorem sameInterface_of_resolveResources_downloads :
    ∃ contract final w, Contract.ofTree downloadsDocument = .ok contract ∧
      Types.Reachable contract [] (Workspace.fresh contract).tables ∧
      Signature.resolveResources contract {} (.fresh contract) = .ok final w ∧
      methodTexts contract .jaxrs = [[("CompletionStage<Response>", [])],
        [("List<String>", ["@QueryParam(\"limit\") Integer limit"])]] ∧
      methodTexts contract .thorntail = [[("Response", [])],
        [("List<String>", ["@QueryParam(\"limit\") Integer limit"])]] ∧
      ∀ r ∈ final.resources,
        Agrees (SameInterface w.signatures .jaxrs .thorntail r)
            (resourceUnit w.signatures .jaxrs {} r) (resourceUnit w.signatures .thorntail {} r) ∧
          (Succeeds (resourceUnit w.signatures .jaxrs {} r) ↔ ∀ e ∈ r.endpoints, ∃ s,
            Table.get? w.signatures e.label = some s ∧ Legible e s) := by
  obtain ⟨contract, parsed, htexts⟩ := Outcome.exists_of_map_toOption
    (o := Contract.ofTree downloadsDocument)
    (f := fun contract => (methodTexts contract .jaxrs, methodTexts contract .thorntail))
    (b := ([[("CompletionStage<Response>", [])],
        [("List<String>", ["@QueryParam(\"limit\") Integer limit"])]],
      [[("Response", [])], [("List<String>", ["@QueryParam(\"limit\") Integer limit"])]]))
    (by decide +kernel)
  obtain ⟨hjaxrs, hthorntail⟩ := Prod.mk.inj htexts
  cases hresolved : Signature.resolveResources contract {} (.fresh contract) with
  | error e w => simp [methodTexts, hresolved] at hjaxrs
  | ok final w =>
    exact ⟨contract, final, w, parsed, .fresh, hresolved, hjaxrs, hthorntail,
      sameInterface_of_resolveResources parsed .fresh hresolved {} .jaxrs .thorntail⟩

end Source

end ApiContract
