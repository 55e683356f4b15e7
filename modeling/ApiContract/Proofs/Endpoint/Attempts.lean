import Mathlib.Data.List.Perm.Basic
import ApiContract.Proofs.Endpoint.Signing
import ApiContract.Proofs.Table

/-! # The attempts of a run

The endpoints of all resources are attempted in order, each in the workspace that the
one before it left. An attempt signs the endpoint or refuses it with a fault. What is
kept and what is refused is every endpoint, once.
-/
namespace ApiContract

def Endpoint.label (e : Endpoint) : String := e.operation.label

namespace Signature

variable {contract : Contract} {settings : Settings}

/-- The attempts on a row of endpoints, with those that were signed, those that were
refused and why, and the workspaces before and after. -/
inductive Attempts (contract : Contract) (settings : Settings) :
    List Endpoint → Workspace → List Endpoint → List (Endpoint × Fault) → Workspace → Prop
  | done {w : Workspace} : Attempts contract settings [] w [] [] w
  | signed {e : Endpoint} {rest kept : List Endpoint} {refused : List (Endpoint × Fault)}
      {w v w' : Workspace} {s : Signature}
      (resolved : resolve contract settings e.operation e.methodName w = .ok s v)
      (others : Attempts contract settings rest
        { v with signatures := Table.put v.signatures e.operation.label s } kept refused w') :
      Attempts contract settings (e :: rest) w (e :: kept) refused w'
  | refused {e : Endpoint} {rest kept : List Endpoint} {refused : List (Endpoint × Fault)}
      {w v w' : Workspace} {fault : SchemaFault} {location : String} {event : Event}
      (failed : resolve contract settings e.operation e.methodName w =
        .error (.schema fault location) v)
      (others :
        Attempts contract settings rest { v with log := v.log.push event } kept refused w') :
      Attempts contract settings (e :: rest) w kept ((e, ⟨fault, location⟩) :: refused) w'

def refusals (refused : List (Endpoint × Fault)) : List Diagnostic :=
  refused.map fun r => r.2.diagnostic

theorem Attempts.append {es fs kept kept' : List Endpoint}
    {refused refused' : List (Endpoint × Fault)}
    {w v w' : Workspace} (h : Attempts contract settings es w kept refused v)
    (h' : Attempts contract settings fs v kept' refused' w') :
    Attempts contract settings (es ++ fs) w (kept ++ kept') (refused ++ refused') w' := by
  induction h with
  | done => exact h'
  | signed resolved _ ih => exact .signed resolved (ih h')
  | refused failed _ ih => exact .refused failed (ih h')

/-- Every endpoint is kept or refused, and no endpoint comes up twice in this. -/
theorem Attempts.perm {es kept : List Endpoint} {refused : List (Endpoint × Fault)}
    {w w' : Workspace} (h : Attempts contract settings es w kept refused w') :
    (kept ++ refused.map Prod.fst).Perm es := by
  induction h with
  | done => exact .refl _
  | signed _ _ ih => exact ih.cons _
  | refused _ _ ih => exact List.perm_middle.trans (ih.cons _)

theorem Attempts.failed {es kept : List Endpoint} {refused : List (Endpoint × Fault)}
    {w w' : Workspace} (h : Attempts contract settings es w kept refused w') :
    ∀ r ∈ refused, ∃ v v', resolve contract settings r.1.operation r.1.methodName v =
      .error (.schema r.2.fault r.2.location) v' := by
  induction h with
  | done => simp
  | signed _ _ ih => exact ih
  | refused failed _ ih =>
    intro r hr
    rcases List.mem_cons.mp hr with rfl | hr
    · exact ⟨_, _, failed⟩
    · exact ih r hr

/-- What every attempt keeps of the tables, all of them together keep. -/
theorem Attempts.keeps {P : TypeTables → Prop}
    (hP : ∀ op method w, P w.tables →
      P (Step.outcome (resolve contract settings op method w)).2)
    {es kept : List Endpoint} {refused : List (Endpoint × Fault)} {w w' : Workspace}
    (h : Attempts contract settings es w kept refused w') (hw : P w.tables) : P w'.tables := by
  induction h with
  | done => exact hw
  | @signed e rest kept refused w v w' s resolved _ ih =>
    have hv := hP e.operation e.methodName w hw
    rw [resolved] at hv
    exact ih hv
  | @refused e rest kept refused w v w' fault location event failed _ ih =>
    have hv := hP e.operation e.methodName w hw
    rw [failed] at hv
    exact ih hv

theorem resolve_keepsSignatures (op : Operation) (method : String) :
    Step.KeepsSignatures (resolve contract settings op method) :=
  resolve_of Step.KeepsSignatures.uniform op method

/-- Those that are kept get a signature, and no other endpoint gets one. -/
theorem Attempts.mem_signatures {es kept : List Endpoint} {refused : List (Endpoint × Fault)}
    {w w' : Workspace} (h : Attempts contract settings es w kept refused w') {label : String} :
    label ∈ Table.keys w'.signatures ↔
      label ∈ Table.keys w.signatures ∨ label ∈ kept.map Endpoint.label := by
  induction h with
  | done => simp
  | signed resolved _ ih =>
    have hold := (resolve_keepsSignatures _ _).of_ok resolved
    simp only [ih, Table.mem_keys_put, hold, List.map_cons, List.mem_cons, Endpoint.label]
    rw [or_comm (a := label = _), or_assoc]
  | refused failed _ ih =>
    have hold := (resolve_keepsSignatures _ _).of_error failed
    rw [ih]
    simp only [hold]

theorem assign_eq_ok {op : Operation} {s : Signature} {w w' : Workspace}
    (h : assign op s w = .ok () w') :
    w' = { w with signatures := Table.put w.signatures op.label s } := by
  unfold assign at h
  split at h
  · cases h
  · cases h
    rfl

theorem signEndpoint_eq_ok {resource : String} {state state' : SignedState} {e : Endpoint}
    {w w' : Workspace} (h : signEndpoint contract settings resource state e w = .ok state' w') :
    (∃ s v, resolve contract settings e.operation e.methodName w = .ok s v ∧
      w' = { v with signatures := Table.put v.signatures e.operation.label s } ∧
      state' = { state with kept := state.kept ++ [e] }) ∨
    ∃ fault location v event, resolve contract settings e.operation e.methodName w =
        .error (.schema fault location) v ∧
      w' = { v with log := v.log.push event } ∧
      state' = { state with diagnostics := state.diagnostics ++ [fault.diagnostic location] } := by
  obtain ⟨result, v, hresult, h⟩ := Step.bind_eq_ok.mp h
  rcases Step.attempt_eq_ok.mp hresult with ⟨s, hs, rfl⟩ | ⟨fault, location, hfail, rfl⟩
  · obtain ⟨⟨⟩, u, hassign, h⟩ := Step.bind_eq_ok.mp h
    cases h
    exact Or.inl ⟨s, v, hs, assign_eq_ok hassign, rfl⟩
  · cases h
    exact Or.inr ⟨fault, location, v, _, hfail, rfl, rfl⟩

theorem attempts_of_foldlM {resource : String} {endpoints : List Endpoint}
    {state state' : SignedState} {w w' : Workspace}
    (h : endpoints.foldlM (signEndpoint contract settings resource) state w = .ok state' w') :
    ∃ kept refused, Attempts contract settings endpoints w kept refused w' ∧
      state'.kept = state.kept ++ kept ∧
      state'.diagnostics = state.diagnostics ++ refusals refused := by
  induction endpoints generalizing state w with
  | nil =>
    cases h
    exact ⟨[], [], .done, by simp, by simp [refusals]⟩
  | cons e rest ih =>
    rw [List.foldlM_cons] at h
    obtain ⟨next, v, hnext, h⟩ := Step.bind_eq_ok.mp h
    obtain ⟨kept, refused, hrest, hkept, hdiagnostics⟩ := ih h
    rcases signEndpoint_eq_ok hnext with
      ⟨s, u, hs, rfl, rfl⟩ | ⟨fault, location, u, event, hf, rfl, rfl⟩
    · exact ⟨e :: kept, refused, .signed hs hrest, by simp [hkept], hdiagnostics⟩
    · exact ⟨kept, (e, ⟨fault, location⟩) :: refused, .refused hf hrest, hkept,
        by simp [hdiagnostics, refusals, Fault.diagnostic]⟩

def remaining (resource : Resource) (kept : List Endpoint) : List Resource :=
  if kept.isEmpty then [] else [{ resource with endpoints := kept }]

theorem flatMap_endpoints_remaining (resource : Resource) (kept : List Endpoint) :
    (remaining resource kept).flatMap Resource.endpoints = kept := by
  unfold remaining
  split
  · simp_all
  · simp

theorem signResource_eq_ok {state state' : Grouping.Grouped} {resource : Resource}
    {w w' : Workspace} (h : signResource contract settings state resource w = .ok state' w') :
    ∃ kept refused, Attempts contract settings resource.endpoints w kept refused w' ∧
      state'.resources = state.resources ++ remaining resource kept ∧
      state'.diagnostics = state.diagnostics ++ refusals refused := by
  obtain ⟨signed, v, hsigned, h⟩ := Step.bind_eq_ok.mp h
  cases h
  obtain ⟨kept, refused, hattempts, hkept, hdiagnostics⟩ := attempts_of_foldlM hsigned
  simp only [List.nil_append] at hkept
  exact ⟨kept, refused, hattempts, by rw [hkept]; rfl, hdiagnostics⟩

/-- Signing resources attempts all their endpoints; the resources that remain have just
the endpoints that were kept. -/
theorem attempts_of_signResources {resources : List Resource} {state state' : Grouping.Grouped}
    {w w' : Workspace}
    (h : resources.foldlM (signResource contract settings) state w = .ok state' w') :
    ∃ emitted refused,
      Attempts contract settings (resources.flatMap Resource.endpoints) w
        (emitted.flatMap Resource.endpoints) refused w' ∧
      state'.resources = state.resources ++ emitted ∧
      state'.diagnostics = state.diagnostics ++ refusals refused := by
  induction resources generalizing state w with
  | nil =>
    cases h
    exact ⟨[], [], .done, by simp, by simp [refusals]⟩
  | cons resource rest ih =>
    rw [List.foldlM_cons] at h
    obtain ⟨next, v, hnext, h⟩ := Step.bind_eq_ok.mp h
    obtain ⟨emitted, refused', hrest, hresources, hdiagnostics⟩ := ih h
    obtain ⟨kept, refused, hfirst, hnextResources, hnextDiagnostics⟩ := signResource_eq_ok hnext
    refine ⟨remaining resource kept ++ emitted, refused ++ refused', ?_, ?_, ?_⟩
    · rw [List.flatMap_cons, List.flatMap_append, flatMap_endpoints_remaining]
      exact hfirst.append hrest
    · rw [hresources, hnextResources, List.append_assoc]
    · rw [hdiagnostics, hnextDiagnostics, refusals, refusals, refusals, List.map_append,
        List.append_assoc]

end Signature

end ApiContract
