import ApiContract.Proofs.Run.Methods
import ApiContract.Proofs.Run.Signed

/-! # What becomes of each operation

In a run that gives a result each operation is emitted, refused for a fault of its own, or
dropped with its resource. What is refused or dropped is reported, and an operation that
is emitted is one method of one resource in each dialect.
-/
namespace ApiContract.Generation

variable {contract : Contract} {settings : Settings}

/-- What a run made of the operations: the groups, the resources told apart and those
dropped, the resources that remained with a signature for each endpoint, and the endpoints
that were refused; with the workspaces after the tables, the grouping and the signing. -/
structure Course where
  tables : List Diagnostic
  built : Workspace
  groups : Table String Grouping.Group
  grouped : Grouping.Grouped
  before : Workspace
  dropped : List Grouping.Dropped
  refused : List (Endpoint × Fault)
  final : Grouping.Grouped
  signed : Workspace

namespace Course

structure Taken (contract : Contract) (settings : Settings) (g : Generated) (w : Workspace)
    (c : Course) : Prop where
  stages : Stages contract settings (.fresh contract) g w c.tables c.built c.final c.signed
  grouping : Grouping.group contract settings c.built = .ok c.grouped c.before
  groups : Grouping.groupsOf contract settings = .ok c.groups
  toldApart : Grouping.ToldApart settings c.groups c.grouped.resources c.dropped
  attempts : Signature.Attempts contract settings (c.grouped.resources.flatMap Resource.endpoints)
    c.before (c.final.resources.flatMap Resource.endpoints) c.refused c.signed
  diagnostics : g.diagnostics =
    c.tables ++ c.dropped.map Grouping.Dropped.diagnostic ++ Signature.refusals c.refused

variable {c : Course} {g : Generated} {w : Workspace}

def emittedOperations (c : Course) : List Operation :=
  (c.final.resources.flatMap Resource.endpoints).map Endpoint.operation

def refusedOperations (c : Course) : List Operation := c.refused.map fun r => r.1.operation

def droppedOperations (c : Course) : List Operation :=
  c.dropped.flatMap fun d => d.resource.operations

theorem Taken.perm (h : c.Taken contract settings g w) :
    (c.emittedOperations ++ c.refusedOperations ++ c.droppedOperations).Perm
      contract.operations := by
  have hattempts := h.attempts.perm.map Endpoint.operation
  rw [List.map_append, List.map_map, List.map_flatMap (l := c.grouped.resources)] at hattempts
  have hgrouped := h.toldApart.perm.trans (Grouping.perm_groupsOf h.groups)
  exact (hattempts.append_right c.droppedOperations).trans hgrouped

theorem Taken.nodup (h : c.Taken contract settings g w)
    (hlabels : (contract.operations.map Operation.label).Nodup) :
    ((c.emittedOperations ++ c.refusedOperations ++ c.droppedOperations).map
      Operation.label).Nodup :=
  (h.perm.map Operation.label).nodup_iff.mpr hlabels

/-- No operation has two fates. -/
structure Apart (c : Course) : Prop where
  refused : c.refusedOperations.Nodup
  emittedRefused : ∀ op ∈ c.emittedOperations, op ∉ c.refusedOperations
  emittedDropped : ∀ op ∈ c.emittedOperations, op ∉ c.droppedOperations
  refusedDropped : ∀ op ∈ c.refusedOperations, op ∉ c.droppedOperations

theorem Taken.apart (h : c.Taken contract settings g w)
    (hlabels : (contract.operations.map Operation.label).Nodup) : c.Apart := by
  have hnodup := List.Nodup.of_map _ (h.nodup hlabels)
  obtain ⟨hfirst, -, hdropped⟩ := List.nodup_append.mp hnodup
  obtain ⟨-, hrefused, hemitted⟩ := List.nodup_append.mp hfirst
  exact
    { refused := hrefused
      emittedRefused := fun op he hr => hemitted op he op hr rfl
      emittedDropped := fun op he hd => hdropped op (List.mem_append_left _ he) op hd rfl
      refusedDropped := fun op hr hd => hdropped op (List.mem_append_right _ hr) op hd rfl }

end Course

end ApiContract.Generation
