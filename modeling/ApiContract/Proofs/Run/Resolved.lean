import ApiContract.Proofs.Endpoint.Primary
import ApiContract.Proofs.Run.Signed
import ApiContract.Proofs.Run.Unordered
import ApiContract.Proofs.Types.Endless

/-! # What signatures fail over

In a contract whose leaves have their types, a signature is refused over a fault, which goes
into a diagnostic of its operation and lets the run go on. There are two failures that end
the run: over a success code of digits that is no number, where the lowest is looked for, and
over a schema that expands without end.
-/
namespace ApiContract

open ApiContract.Types TypeTables Step Relation

/-- No code among which the lowest is looked for is a row of digits that is no number. -/
def Operation.Numbered (settings : Settings) (op : Operation) : Prop :=
  settings.responseRule = .lowest → ∀ r ∈ Signature.candidates op, ¬Signature.IsUnnumbered r.code

instance (settings : Settings) (op : Operation) : Decidable (op.Numbered settings) :=
  inferInstanceAs (Decidable (_ → _))

/-- No schema of the operation expands without end. -/
def Operation.Finite (contract : Contract) (op : Operation) : Prop :=
  ∀ s ∈ op.schemas, ¬s.Endless contract

/-- The leaves of all schemas have their types, and what is named in operations has texts as
names. -/
structure Contract.WellTyped (contract : Contract) : Prop where
  schemas : ∀ s ∈ contract.roots, s.WellTyped
  operations : ∀ op ∈ contract.operations, op.Named

instance (contract : Contract) : Decidable contract.WellTyped :=
  decidable_of_iff (_ ∧ _) ⟨fun h => ⟨h.1, h.2⟩, fun h => ⟨h.1, h.2⟩⟩

/-- The failures that the signature of a well typed operation does not come to. -/
def Failure.isUnforeseen (settings : Settings) (op : Operation) : Failure → Bool
  | schema .. => false
  | endless => false
  | notNumber => decide (op.Numbered settings)
  | _ => true

variable {contract : Contract} {settings : Settings} {op : Operation}
variable {start built w : Workspace} {ds : List Diagnostic}

theorem Types.lasts_of_calls (build : buildTables contract start = .ok ds built)
    (later : ReflTransGen (Call contract) built.tables w.tables) : built.tables.Lasts w.tables :=
  (grows_of_calls later).lasts (consistent_of_buildTables build).reserved

theorem Types.listed_of_buildTables (build : buildTables contract start = .ok ds built) :
    Listed contract built.tables := by
  obtain ⟨-, v, hpasses, ht⟩ := buildTables_eq_ok build
  obtain ⟨u, first, hfirst, hall⟩ := exists_lastPass hpasses
  have hblank : first.tables.Blank := hfirst ▸ blank_startPass contract u.tables
  obtain ⟨hframe, -⟩ := hall.consistent hblank.consistent
  intro c hc
  rw [← ht, hframe.typeNames, hfirst]
  exact listed_reset contract u.tables c hc

theorem Types.listed_of_calls (build : buildTables contract start = .ok ds built)
    (later : ReflTransGen (Call contract) built.tables w.tables) : Listed contract w.tables := by
  intro c hc
  rw [(lasts_of_calls build later).typeNames]
  exact listed_of_buildTables build c hc

namespace Contract.WellTyped

variable (typed : contract.WellTyped) (closed : contract.Closed)
include typed closed

theorem reaching (kind : Failure → Bool) {s : Schema} (hs : s ∈ contract.roots) :
    Reaching contract kind s where
  within _ := closed s hs
  typed _ := typed.schemas s hs

theorem excludes {kind : Failure → Bool}
    (schema : ∀ fault location, kind (.schema fault location) = false)
    (endless : kind .endless = false) : Excludes contract kind where
  schema := schema
  endless := endless
  components _ hs := typed.reaching closed kind (List.mem_append_left _ hs)

end Contract.WellTyped

namespace Signature

variable {method : String}

theorem foreseen_of_resolve (typed : contract.WellTyped) (closed : contract.Closed)
    (member : op ∈ contract.operations) (listed : Listed contract w.tables) :
    Step.Avoids (Failure.isUnforeseen settings op) (resolve contract settings op method) w := by
  have hk : Excludes contract (Failure.isUnforeseen settings op) :=
    typed.excludes closed (fun _ _ => rfl) rfl
  have hs : ∀ s ∈ op.schemas, Reaching contract (Failure.isUnforeseen settings op) s :=
    fun s hs => typed.reaching closed _
      (List.mem_append_right _ (List.mem_flatMap.mpr ⟨op, member, hs⟩))
  have havoids : op.Avoids contract settings (Failure.isUnforeseen settings op) :=
    { schema := fun _ _ => rfl
      named := fun _ => typed.operations op member
      numbered := fun rule r hr => by
        rcases statusOrder_cases (head?_of_mem_candidates hr) with ⟨hnone, hstatus⟩ | h | h
        · rw [hstatus]
          exact .error (decide_eq_false fun numbered => numbered rule r hr hnone)
        · rw [h.2]
          exact .ok _
        · rw [h.2]
          exact .ok _
      binary := hk.binary hs }
  exact (listed_resolve hk havoids hs method).avoids listed

theorem not_finite_of_resolve (build : buildTables contract start = .ok ds built)
    (later : ReflTransGen (Call contract) built.tables w.tables) {w' : Workspace}
    (h : resolve contract settings op method w = .error .endless w') : ¬op.Finite contract := by
  intro finite
  obtain ⟨v, hbuild, -⟩ := resolve_eq_error h
  have havoids : op.Avoids contract settings Failure.isEndless :=
    { schema := fun _ _ => rfl
      named := fun hk => hk.elim nofun nofun
      numbered := fun _ r _ => avoids_statusOrder rfl r.code
      binary := fun s _ => by
        refine .bind (contract.target_ends s).endless fun t => ?_
        split
        · exact .pure _
        · exact .pure _ }
  have hguards := threads_build Yields.threaded havoids method fun s hs owner role _ =>
    ends_mapSchema (aliasesKnown_of_buildTables build) (finite s hs) owner role
  cases hguards.avoids (lasts_of_calls build later) _ _ hbuild

theorem numbered_of_resolve {s : Signature} {w' : Workspace}
    (h : resolve contract settings op method w = .ok s w') : op.Numbered settings := by
  intro rule r hr unnumbered
  obtain ⟨_, _, _, v, _, -, -, -, hprimary, -⟩ := build_eq_ok (resolve_eq_ok.mp h)
  cases (primaryResponse_of_unnumbered rule hr unnumbered v).symm.trans hprimary

/-- An endpoint that is refused adds a diagnostic, and the next one is attempted. -/
theorem signEndpoint_of_refused {resource : String} (state : SignedState) {e : Endpoint}
    {fault : SchemaFault} {location : String} {w' : Workspace}
    (h : resolve contract settings e.operation e.methodName w =
      .error (.schema fault location) w') :
    ∃ w'', signEndpoint contract settings resource state e w =
      .ok { state with diagnostics := state.diagnostics ++ [fault.diagnostic location] } w'' := by
  have hattempt : attempt (resolve contract settings e.operation e.methodName) w =
      .ok (.error ⟨fault, location⟩) w' :=
    attempt_eq_ok.mpr (.inr ⟨fault, location, h, rfl⟩)
  exact ⟨_, bind_eq_ok.mpr ⟨_, w', hattempt, bind_eq_ok.mpr ⟨(), _, rfl, rfl⟩⟩⟩

/-- How the signature of an operation ends: it is given out, or refused with a diagnostic of
the endpoint, or it fails over a code that is no number or over a schema without end. -/
def Ends (contract : Contract) (settings : Settings) (op : Operation) (method : String)
    (w : Workspace) : Prop :=
  match resolve contract settings op method w with
  | .ok _ _ => op.Numbered settings
  | .error (.schema fault location) _ => ∀ resource state path, ∃ w',
      signEndpoint contract settings resource state ⟨op, method, path⟩ w =
        .ok { state with diagnostics := state.diagnostics ++ [fault.diagnostic location] } w'
  | .error .notNumber _ => ¬op.Numbered settings
  | .error .endless _ => ¬op.Finite contract
  | .error _ _ => False

theorem ends_of_calls (typed : contract.WellTyped) (closed : contract.Closed)
    (build : buildTables contract start = .ok ds built)
    (later : ReflTransGen (Call contract) built.tables w.tables)
    (member : op ∈ contract.operations) (method : String) :
    Ends contract settings op method w := by
  have hforeseen : Step.Avoids (Failure.isUnforeseen settings op)
      (resolve contract settings op method) w :=
    foreseen_of_resolve typed closed member (listed_of_calls build later)
  unfold Ends
  cases h : resolve contract settings op method w with
  | ok s w' => exact numbered_of_resolve h
  | error e w' =>
    have he := hforeseen e w' h
    cases e with
    | schema fault location =>
      exact fun resource state path => signEndpoint_of_refused (e := ⟨op, method, path⟩) state h
    | notNumber => exact of_decide_eq_false he
    | endless => exact not_finite_of_resolve build later h
    | _ => cases he

theorem avoids_attempt_of_ends (h : Ends contract settings op method w)
    (numbered : op.Numbered settings) (finite : op.Finite contract) :
    Step.Avoids (fun _ => true) (attempt (resolve contract settings op method)) w := by
  intro e w' he
  obtain ⟨hfails, hschema⟩ := attempt_eq_error he
  rw [Ends, hfails] at h
  cases e with
  | schema fault location => exact absurd rfl (hschema fault location)
  | notNumber => exact absurd numbered h
  | endless => exact absurd finite h
  | _ => exact h.elim

end Signature

namespace Contract

open Signature

/-- In a well typed contract that was read, and in all tables that calls make of built ones,
a signature is given out or refused with a diagnostic, unless a code among which the lowest is
looked for is no number or a schema expands without end. Without such operations all resources
are signed, whatever is refused on the way. Going back to a mark after the tables are built
leads to tables that calls had made before, so that these are all there are. -/
theorem resolve_ends {document : Tree} (parsed : Contract.ofTree document = .ok contract)
    (typed : contract.WellTyped) (build : buildTables contract start = .ok ds built)
    (later : ReflTransGen (Call contract) built.tables w.tables) :
    (∀ settings, ∀ op ∈ contract.operations, ∀ method, Ends contract settings op method w) ∧
    ∀ settings grouped v, w.signatures = [] →
      (∀ op ∈ contract.operations, op.Numbered settings ∧ op.Finite contract) →
      Grouping.group contract settings w = .ok grouped v →
      ∃ final w' refused, resolveResources contract settings w = .ok final w' ∧
        Attempts contract settings (grouped.resources.flatMap Resource.endpoints) v
          (final.resources.flatMap Resource.endpoints) refused w' ∧
        final.diagnostics = grouped.diagnostics ++ refusals refused := by
  have closed := closed_of_ofTree parsed
  refine ⟨fun settings op member method => ends_of_calls typed closed build later member method,
    fun settings grouped v unsigned sound hgroup => ?_⟩
  have hrun : Step.Avoids (fun _ => true) (resolveResources contract settings) w := by
    refine avoids_resolveResources (P := fun t => ReflTransGen (Call contract) built.tables t)
      (fun op method u hu => hu.tail (.resolve settings op method u)) unsigned later
      (nodup_labels parsed) (.of_ok hgroup) fun op member method u hu => ?_
    obtain ⟨numbered, finite⟩ := sound op member
    exact avoids_attempt_of_ends (ends_of_calls typed closed build hu member method) numbered finite
  cases hresolved : resolveResources contract settings w with
  | error e w' => cases hrun e w' hresolved
  | ok final w' =>
    obtain ⟨grouped', v', refused, hgroup', -, -, hattempts, hdiagnostics⟩ :=
      resolveResources_eq_ok hresolved
    cases hgroup.symm.trans hgroup'
    exact ⟨final, w', refused, rfl, hattempts, hdiagnostics⟩

/-- A document with an operation that answers with a text under the code, and one whose answer
has a schema of an unsupported form. -/
def codeDocument (code : String) : Tree :=
  let json (code : String) (schema : Tree) : Tree := .map [(.text code, .map [
    (.text "content", .map [(.text "application/json", .map [(.text "schema", schema)])])])]
  .map [
    (.text "openapi", .text "3.0.0"),
    (.text "paths", .map [
      (.text "/items", .map [(.text "get", .map [
        (.text "responses", json code (.map [(.text "type", .text "string")]))])]),
      (.text "/shapes", .map [(.text "get", .map [
        (.text "responses", json "200" (.map [(.text "oneOf", .list [])]))])])])]

/-- What is signed after the tables are built, by the names of the resources and the kinds of
the diagnostics. -/
def signedAfterBuild (contract : Contract) : Step (List String × List String) := do
  let _ ← buildTables contract
  let final ← resolveResources contract {}
  pure (final.resources.map Resource.name, final.diagnostics.map Diagnostic.kind)

/-- A well typed contract with numbered codes and with no schemas that have parts. -/
def Plain (contract : Contract) : Prop :=
  contract.WellTyped ∧
    ∀ op ∈ contract.operations, op.Numbered {} ∧ ∀ s ∈ op.schemas, s.parts.isEmpty = true

instance (contract : Contract) : Decidable contract.Plain := inferInstanceAs (Decidable (_ ∧ _))

theorem resolve_ends_shapes :
    ∃ contract ds built final w, Contract.ofTree (codeDocument "200") = .ok contract ∧
      contract.WellTyped ∧ buildTables contract (.fresh contract) = .ok ds built ∧
      (∀ op ∈ contract.operations, ∀ method, Ends contract {} op method built) ∧
      resolveResources contract {} built = .ok final w ∧
      final.resources.map Resource.name = ["ItemsResource"] ∧
      final.diagnostics.map Diagnostic.kind = ["UnsupportedSchema"] := by
  obtain ⟨contract, parsed, hcontract⟩ := Outcome.exists_of_map_toOption
    (o := Contract.ofTree (codeDocument "200"))
    (f := fun c => (decide c.Plain, (outcome (signedAfterBuild c (.fresh c))).1.toOption))
    (b := (true, some (["ItemsResource"], ["UnsupportedSchema"]))) (by decide +kernel)
  obtain ⟨hplain, hsigned⟩ := Prod.mk.inj hcontract
  obtain ⟨typed, hops⟩ := of_decide_eq_true hplain
  obtain ⟨names, w, hrun, rfl⟩ := exists_of_outcome (f := id) (by simpa using hsigned)
  obtain ⟨ds, built, build, hrun⟩ := bind_eq_ok.mp hrun
  obtain ⟨final, v, hresolved, hrun⟩ := bind_eq_ok.mp hrun
  obtain ⟨hnames, rfl⟩ := EStateM.Result.ok.inj hrun
  obtain ⟨grouped, u, -, hgroup, -⟩ := resolveResources_eq_ok hresolved
  have unsigned : built.signatures = [] :=
    (buildTables_of KeepsSignatures.uniform).of_ok build
  have sound : ∀ op ∈ contract.operations, op.Numbered {} ∧ op.Finite contract :=
    fun op member => ⟨(hops op member).1, fun s hs =>
      Schema.not_endless_of_leaf (List.isEmpty_iff.mp ((hops op member).2 s hs))⟩
  obtain ⟨hends, hall⟩ := resolve_ends parsed typed build .refl
  obtain ⟨final', w', -, hfinal, -, -⟩ := hall {} grouped u unsigned sound hgroup
  cases hresolved.symm.trans hfinal
  obtain ⟨hresources, hdiagnostics⟩ := Prod.mk.inj hnames
  exact ⟨contract, ds, built, final, v, parsed, typed, build, hends {}, hfinal, hresources,
    hdiagnostics⟩

/-- Whether the first operation, in the workspace where the tables are built, fails over a
number. -/
def failsOverNumber (contract : Contract) : Option Bool :=
  match buildTables contract (.fresh contract) with
  | .ok _ w => contract.operations.head?.map fun op =>
    match resolve contract {} op "listItems" w with
    | .error .notNumber _ => true
    | _ => false
  | .error _ _ => none

/-- The code of digits that is no number, of the only response of an operation, is no fault
that the operation is refused over. -/
theorem resolve_superscript_code :
    ∃ contract ds built op w, Contract.ofTree (codeDocument "2²") = .ok contract ∧
      contract.WellTyped ∧ buildTables contract (.fresh contract) = .ok ds built ∧
      op ∈ contract.operations ∧
      resolve contract {} op "listItems" built = .error .notNumber w := by
  obtain ⟨contract, parsed, hcontract⟩ := Outcome.exists_of_map_toOption
    (o := Contract.ofTree (codeDocument "2²"))
    (f := fun c => (decide c.WellTyped, failsOverNumber c)) (b := (true, some true))
    (by decide +kernel)
  obtain ⟨htyped, hfails⟩ := Prod.mk.inj hcontract
  unfold failsOverNumber at hfails
  cases build : buildTables contract (.fresh contract) with
  | error e w => simp [build] at hfails
  | ok ds built =>
    simp only [build] at hfails
    obtain ⟨op, hop, hfails⟩ := Option.map_eq_some_iff.mp hfails
    split at hfails
    · next w hresolve =>
      exact ⟨contract, ds, built, op, w, parsed, of_decide_eq_true htyped, build,
        List.mem_of_mem_head? hop, hresolve⟩
    · cases hfails

end Contract

end ApiContract
