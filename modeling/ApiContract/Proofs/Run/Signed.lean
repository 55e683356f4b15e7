import ApiContract.Proofs.Contract.Labels
import ApiContract.Proofs.Endpoint.Groups
import ApiContract.Proofs.Run.Stages
import ApiContract.Proofs.Source.Plain
import ApiContract.Proofs.Types.Components

/-! # Each operation is signed once

The labels of a contract that was read are different, and grouping loses none and doubles
none. So no endpoint that is attempted has a signature before, and every endpoint that is
printed has one: a run never fails over a signature.
-/
namespace ApiContract

variable {contract : Contract} {settings : Settings}

namespace Signature

/-- Endpoints that can be signed: none has a signature, and no two have one label. -/
structure Unsigned (es : List Endpoint) (w : Workspace) : Prop where
  nodup : (es.map Endpoint.label).Nodup
  unsigned : ∀ e ∈ es, e.label ∉ Table.keys w.signatures

theorem Unsigned.attempts {es fs kept : List Endpoint} {refused : List (Endpoint × Fault)}
    {w w' : Workspace} (h : Unsigned (es ++ fs) w)
    (ha : Attempts contract settings es w kept refused w') : Unsigned fs w' := by
  have hnodup := h.nodup
  rw [List.map_append, List.nodup_append] at hnodup
  obtain ⟨-, hfs, hapart⟩ := hnodup
  refine ⟨hfs, ?_⟩
  intro e he hsigned
  rcases ha.mem_signatures.mp hsigned with hold | hkept
  · exact h.unsigned e (List.mem_append_right _ he) hold
  · obtain ⟨e', he', hlabel⟩ := List.mem_map.mp hkept
    have hes := ha.perm.subset (List.mem_append_left _ he')
    exact hapart _ (List.mem_map_of_mem hes) _ (List.mem_map_of_mem he) hlabel

theorem assign_of_not_mem {op : Operation} {s : Signature} {w : Workspace}
    (h : op.label ∉ Table.keys w.signatures) :
    assign op s w = .ok () { w with signatures := Table.put w.signatures op.label s } := by
  unfold assign
  rw [Table.has_eq_false_iff.mpr h]
  rfl

/-- An endpoint fails only as the attempt on it does, a schema fault being none. -/
theorem avoids_signEndpoint {kind : Failure → Bool} {resource : String} (state : SignedState)
    {e : Endpoint} {w : Workspace} (h : e.label ∉ Table.keys w.signatures)
    (hattempt : Step.Avoids kind
      (Step.attempt (resolve contract settings e.operation e.methodName)) w) :
    Step.Avoids kind (signEndpoint contract settings resource state e) w := by
  refine hattempt.bind fun result v hv => ?_
  cases result with
  | ok signature =>
    have hold := (resolve_keepsSignatures _ _).attempt.of_ok hv
    exact Step.Avoids.bind (.of_ok (assign_of_not_mem (hold ▸ h))) fun _ _ _ => .pure _
  | error fault => exact Step.Avoids.bind (.of_ok rfl) fun _ _ _ => .pure _

theorem attempts_of_signEndpoint {resource : String} {state state' : SignedState} {e : Endpoint}
    {w w' : Workspace} (h : signEndpoint contract settings resource state e w = .ok state' w') :
    ∃ kept refused, Attempts contract settings [e] w kept refused w' := by
  rcases signEndpoint_eq_ok h with ⟨s, v, hs, rfl, -⟩ | ⟨fault, location, v, event, hf, rfl, -⟩
  · exact ⟨_, _, .signed hs .done⟩
  · exact ⟨_, _, .refused hf .done⟩

section Attempting

/- What every attempt keeps of the tables, each attempt finds in the tables before it. -/
variable {kind : Failure → Bool} {P : TypeTables → Prop}
variable (hkeeps : ∀ op method v, P v.tables →
  P (Step.outcome (resolve contract settings op method v)).2)
include hkeeps

theorem avoids_signEndpoints {resource : String} {es : List Endpoint} (state : SignedState)
    {w : Workspace} (h : Unsigned es w) (hw : P w.tables)
    (hattempt : ∀ e ∈ es, ∀ v : Workspace, P v.tables →
      Step.Avoids kind (Step.attempt (resolve contract settings e.operation e.methodName)) v) :
    Step.Avoids kind (es.foldlM (signEndpoint contract settings resource) state) w := by
  induction es generalizing state w with
  | nil => exact .pure _
  | cons e rest ih =>
    obtain ⟨hfirst, hrest⟩ := List.forall_mem_cons.mp hattempt
    rw [List.foldlM_cons]
    refine (avoids_signEndpoint state (h.unsigned e List.mem_cons_self) (hfirst w hw)).bind
      fun next v hv => ?_
    obtain ⟨kept, refused, hattempts⟩ := attempts_of_signEndpoint hv
    exact ih next (h.attempts hattempts) (hattempts.keeps hkeeps hw) hrest

theorem avoids_signResources {resources : List Resource} (state : Grouping.Grouped)
    {w : Workspace} (h : Unsigned (resources.flatMap Resource.endpoints) w) (hw : P w.tables)
    (hattempt : ∀ e ∈ resources.flatMap Resource.endpoints, ∀ v : Workspace, P v.tables →
      Step.Avoids kind (Step.attempt (resolve contract settings e.operation e.methodName)) v) :
    Step.Avoids kind (resources.foldlM (signResource contract settings) state) w := by
  induction resources generalizing state w with
  | nil => exact .pure _
  | cons resource rest ih =>
    rw [List.flatMap_cons] at h hattempt
    obtain ⟨hfirst, hrest⟩ := List.forall_mem_append.mp hattempt
    have hunsigned : Unsigned resource.endpoints w :=
      { nodup := by
          have hnodup := h.nodup
          rw [List.map_append] at hnodup
          exact hnodup.of_append_left
        unsigned := fun e he => h.unsigned e (List.mem_append_left _ he) }
    rw [List.foldlM_cons]
    refine Step.Avoids.bind
      ((avoids_signEndpoints hkeeps _ hunsigned hw hfirst).bind fun _ _ _ => .pure _)
      fun next v hv => ?_
    obtain ⟨kept, refused, hattempts, -, -⟩ := signResource_eq_ok hv
    exact ih next (h.attempts hattempts) (hattempts.keeps hkeeps hw) hrest

end Attempting

theorem nodup_labels_of_group {grouped : Grouping.Grouped} {w w' : Workspace}
    (hlabels : (contract.operations.map Operation.label).Nodup)
    (h : Grouping.group contract settings w = .ok grouped w') :
    ((grouped.resources.flatMap Resource.endpoints).map Endpoint.label).Nodup := by
  obtain ⟨groups, dropped, hgroups, htold, -⟩ := Grouping.group_eq_ok h
  have hall := (htold.perm.trans (Grouping.perm_groupsOf hgroups)).map Operation.label
  have hnodup := hall.nodup_iff.mpr hlabels
  rw [List.map_append] at hnodup
  have hfirst := hnodup.of_append_left
  simp only [List.map_flatMap, Resource.operations, List.map_map] at hfirst ⊢
  exact hfirst

/-- The operations of the resources are operations of the contract. -/
theorem mem_operations_of_group {grouped : Grouping.Grouped} {w w' : Workspace}
    (h : Grouping.group contract settings w = .ok grouped w') {e : Endpoint}
    (he : e ∈ grouped.resources.flatMap Resource.endpoints) :
    e.operation ∈ contract.operations := by
  obtain ⟨groups, dropped, hgroups, htold, -⟩ := Grouping.group_eq_ok h
  refine (htold.perm.trans (Grouping.perm_groupsOf hgroups)).mem_iff.mp (List.mem_append_left _ ?_)
  obtain ⟨r, hr, he⟩ := List.mem_flatMap.mp he
  exact List.mem_flatMap.mpr ⟨r, hr, List.mem_map_of_mem he⟩

theorem avoids_resolveResources {kind : Failure → Bool} {P : TypeTables → Prop}
    (hkeeps : ∀ op method v, P v.tables →
      P (Step.outcome (resolve contract settings op method v)).2)
    {w : Workspace} (hw : w.signatures = []) (ht : P w.tables)
    (hlabels : (contract.operations.map Operation.label).Nodup)
    (hgroup : Step.Avoids kind (Grouping.group contract settings) w)
    (hattempt : ∀ op ∈ contract.operations, ∀ method (v : Workspace), P v.tables →
      Step.Avoids kind (Step.attempt (resolve contract settings op method)) v) :
    Step.Avoids kind (resolveResources contract settings) w := by
  refine hgroup.bind fun grouped v hv => ?_
  obtain ⟨htables, hsame⟩ := Grouping.group_of Step.Silent.compositional w grouped v hv
  have hunsigned : Unsigned (grouped.resources.flatMap Resource.endpoints) v :=
    { nodup := nodup_labels_of_group hlabels hv
      unsigned := by simp [hsame, hw] }
  exact avoids_signResources hkeeps _ hunsigned (htables ▸ ht) fun e he u hu =>
    hattempt _ (mem_operations_of_group hv he) _ u hu

end Signature

namespace Generation

end Generation

end ApiContract
