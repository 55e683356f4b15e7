import Mathlib.Logic.Relation
import ApiContract.Proofs.Run.Lookups
import ApiContract.Proofs.Run.Undone
import ApiContract.Proofs.Types.Steady

/-! # Signatures in any order

An operation whose schemas need no entry gets its signature by looking components up. Once the
tables are built, what it finds stays the same and it enters nothing, so that it does not matter
what was resolved or mapped before it, and nothing after it notices that it was resolved.
-/
namespace ApiContract

open ApiContract.Types TypeTables Step

/-- No schema of the operation needs an entry. -/
def Operation.Entryless (op : Operation) : Prop := ∀ s ∈ op.schemas, s.Entryless

variable {contract : Contract} {settings : Settings} {t : TypeTables} {op : Operation}

namespace Signature

theorem steady_build (known : AliasesKnown contract t) (hop : op.Entryless) (method : String) :
    Steady t.Lasts (build contract settings op method) := by
  have hthreaded := Steady.threaded (I := t.Lasts)
  refine (threads_build hthreaded (op.avoids_nothing contract settings) method
    fun s hs owner role _ => ?_).1
  have hsteady := steady_mapSchema known (hop s hs) owner role
  exact ⟨hsteady, hsteady.guards⟩

/-- A signature that fails takes nothing back, as nothing was entered for it. -/
theorem steady_resolve (known : AliasesKnown contract t) (hop : op.Entryless) (method : String) :
    Steady t.Lasts (resolve contract settings op method) := by
  obtain ⟨o, ho⟩ := steady_build known hop method
  refine ⟨o, fun w hw => ?_⟩
  have hbuilt := ho w hw
  cases hr : resolve contract settings op method w with
  | ok s v => rwa [resolve_eq_ok.mp hr] at hbuilt
  | error e v =>
    obtain ⟨u, hu, ⟨-, hback⟩ | ⟨-, rfl⟩⟩ := resolve_eq_error hr
    · rw [hu, outcome_error, Prod.mk.injEq] at hbuilt
      rw [outcome_error, hback, hbuilt.2, rollback_mark, hbuilt.1]
    · rwa [hu] at hbuilt

end Signature

namespace Types

/-- A request for the signature of an operation whose schemas need no entry. -/
def Request.Entryless : Request → Prop
  | .resolve _ op _ => op.Entryless
  | _ => False

theorem Request.steady (known : AliasesKnown contract t) {request : Request}
    (h : request.Entryless) : Steady t.Lasts (request.step contract) := by
  cases request with
  | resolve settings op method =>
    exact Steady.compositional.map (Signature.steady_resolve known h method) _
  | _ => cases h

/-- Requests that need no entry are answered one after another as by the first tables. -/
theorem answers_of_steady (known : AliasesKnown contract t) {v w : Workspace}
    (hv : t.Lasts v.tables) (hw : t.Lasts w.tables) {requests : List Request}
    (entryless : ∀ r ∈ requests, r.Entryless) :
    answers contract requests w =
      (requests.map fun r => (outcome (r.step contract v)).1, w.tables) := by
  induction requests generalizing w with
  | nil => rfl
  | cons request rest ih =>
    have hfirst := (Request.steady known (entryless request List.mem_cons_self)).outcome_eq hv hw
    obtain ⟨u, hu, hanswers⟩ := answers_cons contract request rest w
    rw [hfirst] at hu hanswers
    have hrest := ih (w := u) (hu ▸ hw) fun r hr => entryless r (List.mem_cons_of_mem _ hr)
    rw [hanswers, hrest, hu, List.map_cons]

theorem grows_of_calls {t' : TypeTables}
    (h : Relation.ReflTransGen (Call contract) t t') : t.Grows t' := by
  induction h with
  | refl => exact Grows.refl t
  | tail _ called ih => exact ih.trans called.grows

/-- In all tables that calls make of built ones, an operation whose schemas need no entry has
one outcome, a signature or a failure, and leaves the tables as they are. In a row of such
operations each has this outcome, so that the order of the row makes no difference to any. -/
theorem answers_of_entryless {start built w : Workspace} {ds : List Diagnostic}
    (build : buildTables contract start = .ok ds built)
    (later : Relation.ReflTransGen (Call contract) built.tables w.tables) :
    (∀ settings op method, op.Entryless →
      outcome (Signature.resolve contract settings op method w) =
        ((outcome (Signature.resolve contract settings op method built)).1, w.tables)) ∧
    ∀ row : List Request, (∀ r ∈ row, r.Entryless) →
      answers contract row w =
        (row.map fun r => (outcome (r.step contract built)).1, w.tables) ∧
      ∀ row', row.Perm row' →
        (row.zip (answers contract row w).1).Perm (row'.zip (answers contract row' w).1) := by
  have known := aliasesKnown_of_buildTables build
  have hreserved := (consistent_of_buildTables build).reserved
  have hlater := (grows_of_calls later).lasts hreserved
  have hanswers : ∀ row : List Request, (∀ r ∈ row, r.Entryless) → answers contract row w =
      (row.map fun r => (outcome (r.step contract built)).1, w.tables) :=
    fun row hrow => answers_of_steady known (Lasts.refl _) hlater hrow
  refine ⟨fun settings op method hop => ?_, fun row hrow => ⟨hanswers row hrow, ?_⟩⟩
  · exact (Signature.steady_resolve known hop method).outcome_eq (Lasts.refl _) hlater
  · intro row' hperm
    rw [hanswers row hrow, hanswers row' fun r hr => hrow r (hperm.mem_iff.mpr hr)]
    rw [← List.map_prod_left_eq_zip, ← List.map_prod_left_eq_zip]
    exact hperm.map _

/-- An operation that takes a row of names, and one that takes what leads to itself. -/
def namesRow : List Request :=
  let taking (schema : Schema) : Operation :=
    { method := "get", path := "/names",
      parameters := [{ name := .text "names", place := .text "query", schema := some schema }] }
  [.resolve {} (taking (.array { location := "#/row" } (.reference "#/row/items" "Names"))) "list",
    .resolve {} (taking (.reference "#/self" "Self")) "list"]

/-- The workspace in which the tables of the names are built. -/
def namesBuilt : Workspace :=
  match buildTables namesContract (.fresh namesContract) with
  | .ok _ w => w
  | .error _ w => w

/-- The same after an operation that got an enum of its own. -/
def namesLater : Workspace :=
  { tables := (outcome
      (Signature.resolve namesContract {} Signature.soundOperation "find" namesBuilt)).2 }

theorem answers_of_entryless_names :
    ∃ ds, buildTables namesContract (.fresh namesContract) = .ok ds namesBuilt ∧
      Relation.ReflTransGen (Call namesContract) namesBuilt.tables namesLater.tables ∧
      Table.keys namesBuilt.tables.enums = [] ∧
      Table.keys namesLater.tables.enums = ["FindFilter"] ∧
      (∀ r ∈ namesRow, r.Entryless) ∧
      (namesRow.map fun r => (outcome (r.step namesContract namesBuilt)).1.toOption.isSome) =
        [true, false] ∧
      answers namesContract namesRow namesLater =
        (namesRow.map fun r => (outcome (r.step namesContract namesBuilt)).1,
          namesLater.tables) := by
  obtain ⟨ds, w, hw, -⟩ := Step.exists_of_outcome (f := List.length) (b := 1)
    (r := buildTables namesContract (.fresh namesContract)) (by decide +kernel)
  have build : buildTables namesContract (.fresh namesContract) = .ok ds namesBuilt := by
    rw [namesBuilt, hw]
  have later : Relation.ReflTransGen (Call namesContract) namesBuilt.tables namesLater.tables :=
    .single (.resolve {} Signature.soundOperation "find" namesBuilt)
  have entryless : ∀ r ∈ namesRow, r.Entryless := by
    simp [namesRow, Request.Entryless, Operation.Entryless, Operation.schemas, Schema.Entryless,
      Schema.nodes, Schema.needsEntry, Table.values]
  exact ⟨ds, build, later, by decide +kernel, by decide +kernel, entryless, by decide +kernel,
    ((answers_of_entryless build later).2 namesRow entryless).1⟩

end Types

end ApiContract
