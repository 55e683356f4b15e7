import ApiContract.Proofs.Endpoint.Signing
import ApiContract.Proofs.Types.Components

/-! # Failing operations leave no trace

Operations are resolved one after another over the same tables. One that fails takes
back every type, name and alias that it had entered, so that the operations around it
get the signatures, and leave the tables, that they would without it.
-/
namespace ApiContract.Signature

open TypeTables

variable {contract : Contract} {settings : Settings}

/-- Resolves a row of operations, each under its method name; an operation with a
schema fault has no signature. -/
def resolveEach (contract : Contract) (settings : Settings) :
    List (Operation × String) → Step (List (Option Signature))
  | [] => pure []
  | (op, method) :: rest => do
    let result ← Step.attempt (resolve contract settings op method)
    let others ← resolveEach contract settings rest
    pure (result.toOption :: others)

def succeeded (row : List (Operation × String)) (results : List (Option Signature)) :
    List (Operation × String) :=
  ((row.zip results).filter fun e => e.2.isSome).map Prod.fst

@[simp] theorem succeeded_cons_some (pair : Operation × String)
    (row : List (Operation × String)) (s : Signature) (results : List (Option Signature)) :
    succeeded (pair :: row) (some s :: results) = pair :: succeeded row results := rfl

@[simp] theorem succeeded_cons_none (pair : Operation × String)
    (row : List (Operation × String)) (results : List (Option Signature)) :
    succeeded (pair :: row) (none :: results) = succeeded row results := rfl

/-- The first operation of a row got a signature and the others started from its tables,
or it left the tables as they were. -/
theorem resolveEach_cons_eq_ok {op : Operation} {method : String}
    {row : List (Operation × String)} {results : List (Option Signature)} {w w' : Workspace}
    (ht : w.tables.Reserved)
    (h : resolveEach contract settings ((op, method) :: row) w = .ok results w') :
    ∃ others v, resolveEach contract settings row v = .ok others w' ∧
      ((∃ s, resolve contract settings op method w = .ok s v ∧ results = some s :: others) ∨
        (v.tables = w.tables ∧ results = none :: others)) := by
  obtain ⟨result, v, hfirst, h⟩ := Step.bind_eq_ok.mp h
  obtain ⟨others, u, hrest, h⟩ := Step.bind_eq_ok.mp h
  cases h
  refine ⟨others, v, hrest, ?_⟩
  rcases Step.attempt_eq_ok.mp hfirst with ⟨s, hs, rfl⟩ | ⟨fault, location, hfail, rfl⟩
  · exact Or.inl ⟨s, hs, rfl⟩
  · exact Or.inr ⟨tables_of_resolve_eq_error ht hfail, rfl⟩

/-- The operations of a row that got signatures get the same ones by themselves, from
any workspace with the same tables. -/
theorem exists_resolveEach_succeeded {row : List (Operation × String)}
    {results : List (Option Signature)} {v w w' : Workspace} (htables : w.tables = v.tables)
    (ht : w.tables.Reserved) (h : resolveEach contract settings row w = .ok results w') :
    results.length = row.length ∧
      ∃ v', resolveEach contract settings (succeeded row results) v =
          .ok (results.filter Option.isSome) v' ∧ v'.tables = w'.tables := by
  induction row generalizing v w results with
  | nil =>
    cases h
    exact ⟨rfl, v, rfl, htables.symm⟩
  | cons pair row ih =>
    obtain ⟨op, method⟩ := pair
    obtain ⟨others, u, hrest, ⟨s, hs, rfl⟩ | ⟨hsame, rfl⟩⟩ := resolveEach_cons_eq_ok ht h
    · obtain ⟨u', hs', hu⟩ := (reads_resolve op method).of_ok htables hs
      obtain ⟨hlen, v', hrun, hv⟩ := ih hu.symm (reserved_of_resolve_eq_ok ht hs) hrest
      refine ⟨by simp [hlen], v', ?_, hv⟩
      have hattempt : Step.attempt (resolve contract settings op method) v = .ok (.ok s) u' :=
        Step.attempt_eq_ok.mpr (Or.inl ⟨s, hs', rfl⟩)
      simp only [succeeded_cons_some, resolveEach, Step.bind_apply, hattempt, hrun]
      rfl
    · obtain ⟨hlen, v', hrun, hv⟩ := ih (hsame.trans htables) (hsame ▸ ht) hrest
      exact ⟨by simp [hlen], v', hrun, hv⟩

/-- Over built tables, the operations of a row that fail are invisible to the others:
the others alone get the same signatures and leave the same tables. -/
theorem resolveEach_succeeded {row : List (Operation × String)}
    {results : List (Option Signature)} {ds : List Diagnostic} {w₀ w w' : Workspace}
    (built : Types.buildTables contract w₀ = .ok ds w)
    (resolved : resolveEach contract settings row w = .ok results w') :
    results.length = row.length ∧
      ∃ v, resolveEach contract settings (succeeded row results) w =
          .ok (results.filter Option.isSome) v ∧ v.tables = w'.tables :=
  exists_resolveEach_succeeded rfl (Types.consistent_of_buildTables built).reserved resolved

/-- An operation whose filter has a property of a form that is not supported, behind one
that gets an enum of its own. -/
def brokenOperation : Operation :=
  { method := "get", path := "/broken",
    parameters := [{
      name := .text "filter", place := .text "query",
      schema := some (.object { location := "#/filter" }
        [(.text "size", .enumeration { location := "#/size" } (.text "string") [.text "small"]),
          (.text "shape", .unsupported { location := "#/shape" } "oneOf")] [] []) }] }

def soundOperation : Operation :=
  { method := "get", path := "/sound",
    parameters := [{
      name := .text "filter", place := .text "query",
      schema := some (.enumeration { location := "#/size" } (.text "string") [.text "small"]) }] }

def petContract : Contract :=
  { title := "Pets", version := "1",
    schemas := [("Pet", .object { location := "#/components/schemas/Pet" }
      [(.text "name", .primitive { location := "#/name" } "string" .null)] [] [])] }

theorem resolveEach_succeeded_broken_sound :
    ∃ results w w' v,
      results.map Option.isSome = [false, true] ∧
      resolveEach petContract {} [(brokenOperation, "find"), (soundOperation, "find")] w =
        .ok results w' ∧
      resolveEach petContract {} [(soundOperation, "find")] w =
        .ok (results.filter Option.isSome) v ∧ v.tables = w'.tables := by
  obtain ⟨results, w', hrun, hsome⟩ := Step.exists_of_outcome (b := [false, true])
    (f := fun results : List (Option Signature) => results.map Option.isSome)
    (r := (Types.buildTables petContract >>= fun _ => resolveEach petContract {}
      [(brokenOperation, "find"), (soundOperation, "find")]) (.fresh petContract))
    (by decide +kernel)
  obtain ⟨ds, w, hbuilt, hresolved⟩ := Step.bind_eq_ok.mp hrun
  obtain ⟨-, v, hv, ht⟩ := resolveEach_succeeded hbuilt hresolved
  refine ⟨results, w, w', v, hsome, hresolved, ?_, ht⟩
  match results, hsome with
  | [none, some s], _ => exact hv

end ApiContract.Signature
