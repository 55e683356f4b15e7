import ApiContract.Proofs.Endpoint.Rollback
import ApiContract.Proofs.Run.Reachable

/-! # Requests that are taken back

Requests are put to the tables one after another, and each is answered from the tables that
the one before it left, whether that succeeded or failed. As long as none of them builds the
tables, they only add to them, so that going back to the mark from before gives exactly the
tables from before. Answers come from the tables alone: whatever is asked later, the answers
are those that would have been given without the requests that were taken back.
-/
namespace ApiContract.Types

open TypeTables

/-- What the tables can be asked for. -/
inductive Request
  | mapSchema (schema : Option Schema) (owner : String) (role : Scalar)
  | reference (name location : String)
  | synthesizeName (owner : String) (role : Scalar)
  | resolve (settings : Settings) (op : Operation) (method : String)
  | build

inductive Answer
  | type (type : TypeRef)
  | name (name : String)
  | signature (signature : Signature)
  | diagnostics (diagnostics : List Diagnostic)

namespace Request

def isBuild : Request → Bool
  | build => true
  | _ => false

def step (contract : Contract) : Request → Step Answer
  | mapSchema schema owner role => do
    let type ← Types.mapSchema contract schema owner role
    pure (.type type)
  | reference name location => do
    let type ← Types.reference contract name location
    pure (.type type)
  | synthesizeName owner role => do
    let name ← Types.synthesizeName owner role
    pure (.name name)
  | resolve settings op method => do
    let signature ← Signature.resolve contract settings op method
    pure (.signature signature)
  | build => do
    let diagnostics ← buildTables contract
    pure (.diagnostics diagnostics)

end Request

/-- The outcomes of requests, each put to the tables that the one before it left, and the
tables that the last one leaves. -/
def answers (contract : Contract) : List Request → Workspace → List (Outcome Answer) × TypeTables
  | [], w => ([], w.tables)
  | request :: rest, w =>
    match request.step contract w with
    | .ok answer v => (.ok answer :: (answers contract rest v).1, (answers contract rest v).2)
    | .error e v => (.error e :: (answers contract rest v).1, (answers contract rest v).2)

variable {contract : Contract} {requests : List Request} {v w : Workspace}

theorem Request.of_uniform {P : ∀ α : Type, Step α → Prop} (hP : Step.Uniform P)
    (request : Request) : P Answer (request.step contract) := by
  cases request with
  | mapSchema schema owner role => exact hP.map (mapSchema_of hP schema owner role) _
  | reference name location => exact hP.map (referenceWith_of hP (mapWithin_of hP _) _ _) _
  | synthesizeName owner role => exact hP.map (synthesizeName_of hP owner role) _
  | resolve settings op method => exact hP.map (Signature.resolve_of hP op method) _
  | build => exact hP.map (buildTables_of hP) _

/-- A request that does not build the tables adds to them, however it ends. -/
theorem Request.keeps {request : Request} (mapping : request.isBuild = false) :
    Step.Keeps Grows (request.step contract) := by
  cases request with
  | mapSchema schema owner role => exact (growing_mapSchema schema owner role).map _
  | reference name location => exact (keeps_reference name location).map _
  | synthesizeName owner role => exact (keeps_synthesizeName owner role).map _
  | resolve settings op method => exact (Signature.keeps_resolve op method).map _
  | build => cases mapping

theorem answers_cons (contract : Contract) (request : Request) (rest : List Request)
    (w : Workspace) :
    ∃ v, v.tables = (Step.outcome (request.step contract w)).2 ∧
      answers contract (request :: rest) w =
        ((Step.outcome (request.step contract w)).1 :: (answers contract rest v).1,
          (answers contract rest v).2) := by
  cases hs : request.step contract w with
  | ok answer v => exact ⟨v, rfl, by simp only [answers, hs, Step.outcome_ok]⟩
  | error e v => exact ⟨v, rfl, by simp only [answers, hs, Step.outcome_error]⟩

theorem grows_answers (contract : Contract) (mapping : ∀ r ∈ requests, r.isBuild = false)
    (w : Workspace) :
    w.tables.Grows (answers contract requests w).2 := by
  induction requests generalizing w with
  | nil => exact Grows.refl _
  | cons request rest ih =>
    obtain ⟨v, hv, hanswers⟩ := answers_cons contract request rest w
    have hfirst : w.tables.Grows v.tables :=
      hv ▸ Request.keeps (mapping request List.mem_cons_self) w
    rw [hanswers]
    exact hfirst.trans (ih (fun r hr => mapping r (List.mem_cons_of_mem _ hr)) v)

/-- From equal tables the answers are the same, and so are the tables in the end. -/
theorem answers_congr (h : v.tables = w.tables) :
    answers contract requests v = answers contract requests w := by
  induction requests generalizing v w with
  | nil => simp only [answers, h]
  | cons request rest ih =>
    have hreads : Step.ReadsTables (request.step contract) :=
      request.of_uniform Step.ReadsTables.uniform
    obtain ⟨v', hv', hv⟩ := answers_cons contract request rest v
    obtain ⟨w', hw', hw⟩ := answers_cons contract request rest w
    have hsame := hreads v w h
    rw [hv, hw, hsame, ih (hv'.trans (hsame ▸ hw'.symm))]

/-- Over reachable tables, built or not, any requests but builds are undone by going back to
the mark from before them: beans, enums, names given out and aliases are what they were, and
whatever is asked later is answered as if those requests had not been made. No alias stays
under way that was not so before. As in any mapping no component is declared twice. -/
theorem rollback_of_answers (distinct : (Table.keys contract.schemas).Nodup) {marks : List Mark}
    (reachable : Reachable contract marks w.tables)
    (mapping : ∀ r ∈ requests, r.isBuild = false) :
    (answers contract requests w).2.resolving = w.tables.resolving ∧
      (answers contract requests w).2.rollback w.tables.mark = w.tables ∧
      ∀ later v, v.tables = (answers contract requests w).2.rollback w.tables.mark →
        answers contract later v = answers contract later w := by
  obtain ⟨hnamed, -⟩ := reachable.rests distinct
  have hgrows := grows_answers contract mapping w
  have hback := hgrows.rollback hnamed.reserved
  exact ⟨(hgrows.frame hnamed.reserved).resolving, hback,
    fun later v hv => answers_congr (hv.trans hback)⟩

/-- Names that are texts, a row of them, and a component that is nothing but itself. -/
def namesContract : Contract :=
  { title := "Names", version := "1",
    schemas := [
      ("Names", .array { location := "#/names" } (.reference "#/names/items" "Name")),
      ("Name", .primitive { location := "#/name" } "string" .null),
      ("Self", .reference "#/self" "Self")] }

/-- Aliases that are found, one that leads to itself, an operation that fails behind an enum of
its own, and one that gets such an enum. -/
def namesRequests : List Request := [
  .reference "Names" "#/first", .reference "Self" "#/second",
  .resolve {} Signature.brokenOperation "find", .resolve {} Signature.soundOperation "find",
  .synthesizeName "find" (.text "filter")]

theorem rollback_of_answers_names :
    ∃ given t, answers namesContract namesRequests (.fresh namesContract) = (given, t) ∧
      given.map (fun answer => answer.toOption.isSome) = [true, false, false, true, true] ∧
      Table.keys t.aliases = ["Name", "Names"] ∧ Table.keys t.enums = ["FindFilter"] ∧
      t.taken.head? = some "FindFilter2" ∧ t.resolving = [] ∧
      t.rollback (Workspace.fresh namesContract).tables.mark =
        (Workspace.fresh namesContract).tables ∧
      ∀ later v, v.tables = t.rollback (Workspace.fresh namesContract).tables.mark →
        answers namesContract later v = answers namesContract later (.fresh namesContract) := by
  have distinct : (Table.keys namesContract.schemas).Nodup := by decide
  have mapping : ∀ r ∈ namesRequests, r.isBuild = false := by simp [namesRequests, Request.isBuild]
  obtain ⟨hresolving, hback, hlater⟩ :=
    rollback_of_answers (w := .fresh namesContract) distinct .fresh mapping
  exact ⟨_, _, rfl, by decide +kernel, by decide +kernel, by decide +kernel, by decide +kernel,
    hresolving, hback, hlater⟩

end ApiContract.Types
