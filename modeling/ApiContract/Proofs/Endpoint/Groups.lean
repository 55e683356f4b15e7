import Mathlib.Data.List.Perm.Basic
import ApiContract.Endpoint.Grouping
import ApiContract.Proofs.Step
import ApiContract.Proofs.Table

/-! # Groups lose nothing

Every operation goes into one group, every group becomes a resource or is dropped for a
clash of names, and telling the methods of a resource apart changes names only. So the
operations of the resources and of what was dropped are those of the contract.
-/
namespace ApiContract

/-- Writing the value under a key with one more item adds the item. -/
theorem Table.perm_flatMap_put {α β γ : Type} [BEq α] [LawfulBEq α] {f : β → List γ}
    (t : Table α β) {k : α} {v start : β} {x : γ} (hv : f v = f ((get? t k).getD start) ++ [x])
    (hs : f start = []) :
    ((put t k v).flatMap fun e => f e.2).Perm ((t.flatMap fun e => f e.2) ++ [x]) := by
  induction t with
  | nil =>
    have hnone : f v = [x] := by simpa [get?, hs] using hv
    simp [put, hnone]
  | cons e rest ih =>
    by_cases hk : (e.1 == k) = true
    · have hfound : f v = f e.2 ++ [x] := by simpa [get?, hk] using hv
      simp only [put, hk, if_true, List.flatMap_cons, hfound, List.append_assoc]
      exact (List.perm_append_comm).append_left _
    · have hrest : f v = f ((get? rest k).getD start) ++ [x] := by
        simpa [get?, List.find?_cons, hk] using hv
      simp only [put, hk, Bool.false_eq_true, if_false, List.flatMap_cons, List.append_assoc]
      exact (ih hrest).append_left _

def Resource.operations (resource : Resource) : List Operation :=
  resource.endpoints.map Endpoint.operation

namespace Grouping

variable {settings : Settings}

def operationsOf (groups : Table String Group) : List Operation :=
  groups.flatMap fun e => e.2.operations

theorem perm_addOperation {groups groups' : Table String Group} {op : Operation}
    (h : addOperation settings groups op = .ok groups') :
    (operationsOf groups').Perm (operationsOf groups ++ [op]) := by
  obtain ⟨k, -, h⟩ := Outcome.bind_eq_ok.mp h
  obtain ⟨name, -, h⟩ := Outcome.bind_eq_ok.mp h
  cases h
  exact Table.perm_flatMap_put (f := Group.operations) groups rfl rfl

theorem perm_addOperations {ops : List Operation} {groups groups' : Table String Group}
    (h : ops.foldlM (addOperation settings) groups = .ok groups') :
    (operationsOf groups').Perm (operationsOf groups ++ ops) := by
  induction ops generalizing groups with
  | nil =>
    cases h
    simp
  | cons op rest ih =>
    rw [List.foldlM_cons] at h
    obtain ⟨next, hnext, h⟩ := Outcome.bind_eq_ok.mp h
    refine (ih h).trans ?_
    simpa using (perm_addOperation hnext).append_right rest

theorem perm_groupsOf {contract : Contract} {groups : Table String Group}
    (h : groupsOf contract settings = .ok groups) :
    (operationsOf groups).Perm contract.operations := by
  simpa [operationsOf] using perm_addOperations h

theorem endpointOf_eq_ok {path : String} {op : Operation} {e : Endpoint}
    (h : endpointOf path op = .ok e) : e.operation = op := by
  obtain ⟨name, -, h⟩ := Outcome.bind_eq_ok.mp h
  cases h
  rfl

theorem resourceOf_eq_ok {name : String} {group : Group} {resource : Resource}
    (h : resourceOf settings name group = .ok resource) :
    resource.operations = group.operations := by
  obtain ⟨endpoints, hendpoints, h⟩ := Outcome.bind_eq_ok.mp h
  cases h
  have hops := Outcome.map_of_mapM (g := fun op => op) (fun _ _ => endpointOf_eq_ok) hendpoints
  simpa [Resource.operations] using hops

theorem nameEndpoint_eq_ok {resource : Resource} {state state' : NamingState} {e : Endpoint}
    (h : nameEndpoint resource state e = .ok state') :
    ∃ name, state'.named = state.named ++ [{ e with methodName := name }] := by
  unfold nameEndpoint at h
  split at h
  · cases h
    exact ⟨e.methodName, rfl⟩
  · obtain ⟨candidates, -, h⟩ := Outcome.bind_eq_ok.mp h
    split at h
    · next name _ =>
      cases h
      exact ⟨name, rfl⟩
    · cases h

theorem operations_of_nameEndpoints {resource : Resource} {es : List Endpoint}
    {state state' : NamingState} (h : es.foldlM (nameEndpoint resource) state = .ok state') :
    state'.named.map Endpoint.operation =
      state.named.map Endpoint.operation ++ es.map Endpoint.operation := by
  induction es generalizing state with
  | nil =>
    cases h
    simp
  | cons e rest ih =>
    rw [List.foldlM_cons] at h
    obtain ⟨next, hnext, h⟩ := Outcome.bind_eq_ok.mp h
    obtain ⟨name, hnamed⟩ := nameEndpoint_eq_ok hnext
    rw [ih h, hnamed]
    simp

theorem distinguish_eq_ok {resource named : Resource} (h : distinguish resource = .ok named) :
    named.operations = resource.operations := by
  obtain ⟨final, hfinal, h⟩ := Outcome.bind_eq_ok.mp h
  cases h
  simpa [Resource.operations] using operations_of_nameEndpoints hfinal

/-- A resource whose methods could not be told apart, and the clash. -/
structure Dropped where
  resource : Resource
  clash : NameClash
  location : String

def Dropped.diagnostic (d : Dropped) : Diagnostic :=
  ⟨NameClash.kind, d.location, d.clash.message⟩

/-- How groups end: each becomes a resource with distinct names or is dropped for a clash. -/
inductive ToldApart (settings : Settings) :
    List (String × Group) → List Resource → List Dropped → Prop
  | done : ToldApart settings [] [] []
  | kept {entry : String × Group} {rest : List (String × Group)} {resource named : Resource}
      {resources : List Resource} {dropped : List Dropped}
      (made : resourceOf settings entry.1 entry.2 = .ok resource)
      (apart : distinguish resource = .ok named)
      (others : ToldApart settings rest resources dropped) :
      ToldApart settings (entry :: rest) (named :: resources) dropped
  | dropped {entry : String × Group} {rest : List (String × Group)} {resource : Resource}
      {clash : NameClash} {location : String} {resources : List Resource} {dropped : List Dropped}
      (made : resourceOf settings entry.1 entry.2 = .ok resource)
      (clashes : distinguish resource = .error (.naming clash location))
      (others : ToldApart settings rest resources dropped) :
      ToldApart settings (entry :: rest) resources (⟨resource, clash, location⟩ :: dropped)

theorem ToldApart.perm {groups : List (String × Group)} {resources : List Resource}
    {dropped : List Dropped} (h : ToldApart settings groups resources dropped) :
    (resources.flatMap Resource.operations ++
      dropped.flatMap fun d => d.resource.operations).Perm (operationsOf groups) := by
  induction h with
  | done => exact .refl _
  | kept made apart _ ih =>
    simp only [operationsOf, List.flatMap_cons, List.append_assoc, distinguish_eq_ok apart,
      resourceOf_eq_ok made]
    exact ih.append_left _
  | dropped made _ _ ih =>
    simp only [operationsOf, List.flatMap_cons, resourceOf_eq_ok made]
    exact (List.perm_append_comm_assoc _ _ _).trans (ih.append_left _)

theorem ToldApart.clashes {groups : List (String × Group)} {resources : List Resource}
    {dropped : List Dropped} (h : ToldApart settings groups resources dropped) :
    ∀ d ∈ dropped, distinguish d.resource = .error (.naming d.clash d.location) := by
  induction h with
  | done => simp
  | kept _ _ _ ih => exact ih
  | dropped _ clashes _ ih =>
    intro d hd
    rcases List.mem_cons.mp hd with rfl | hd
    · exact clashes
    · exact ih d hd

theorem toldApart_of_foldlM {groups : List (String × Group)} {grouped grouped' : Grouped}
    {w w' : Workspace}
    (h : groups.foldlM (addResource settings) grouped w = .ok grouped' w') :
    ∃ resources dropped, ToldApart settings groups resources dropped ∧
      grouped'.resources = grouped.resources ++ resources ∧
      grouped'.diagnostics = grouped.diagnostics ++ dropped.map Dropped.diagnostic := by
  induction groups generalizing grouped w with
  | nil =>
    cases h
    exact ⟨[], [], .done, by simp, by simp⟩
  | cons entry rest ih =>
    rw [List.foldlM_cons] at h
    obtain ⟨next, v, hnext, h⟩ := Step.bind_eq_ok.mp h
    obtain ⟨resources, dropped, hrest, hresources, hdiagnostics⟩ := ih h
    obtain ⟨resource, u, hlift, hnext⟩ := Step.bind_eq_ok.mp hnext
    obtain ⟨hmade, rfl⟩ := Step.lift_eq_ok.mp hlift
    cases hd : distinguish resource with
    | ok named =>
      rw [hd] at hnext
      cases hnext
      exact ⟨named :: resources, dropped, .kept hmade hd hrest, by simp [hresources], hdiagnostics⟩
    | error failure =>
      rw [hd] at hnext
      cases failure with
      | naming clash location =>
        cases hnext
        exact ⟨resources, ⟨resource, clash, location⟩ :: dropped, .dropped hmade hd hrest,
          hresources, by simp [hdiagnostics, Dropped.diagnostic]⟩
      | _ => cases hnext

theorem group_eq_ok {contract : Contract} {grouped : Grouped} {w w' : Workspace}
    (h : group contract settings w = .ok grouped w') :
    ∃ groups dropped, groupsOf contract settings = .ok groups ∧
      ToldApart settings groups grouped.resources dropped ∧
      grouped.diagnostics = dropped.map Dropped.diagnostic := by
  obtain ⟨groups, v, hlift, h⟩ := Step.bind_eq_ok.mp h
  obtain ⟨hgroups, rfl⟩ := Step.lift_eq_ok.mp hlift
  obtain ⟨resources, dropped, htold, hresources, hdiagnostics⟩ := toldApart_of_foldlM h
  simp only [List.nil_append] at hresources hdiagnostics
  exact ⟨groups, dropped, hgroups, hresources ▸ htold, hdiagnostics⟩

end Grouping

end ApiContract
