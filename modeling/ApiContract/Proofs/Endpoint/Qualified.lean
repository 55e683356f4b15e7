import ApiContract.Proofs.Endpoint.Shapes
import ApiContract.Proofs.Types.Linked
import ApiContract.Proofs.Types.Shapes

/-! # Qualified names in types and signatures

Of the primitive types only dates have a qualified name, and a type from outside is called by
the last component of its own. That holds of every node of every type that mapping makes. The
types of a signature come from mapping its schemas or have no name of their own, so that they
are qualified as those of the tables are.
-/
namespace ApiContract

namespace TypeRef

/-- A node whose qualified name, if it has one, is that of dates or was given from outside. -/
structure NodeQualified (node : TypeRef) : Prop where
  primitive : node.kind = .primitive → ∀ q, node.qualified = some q → q = "java.util.Date"
  external : node.kind = .external → ∃ q, node = external q

def Qualified (type : TypeRef) : Prop := ∀ node ∈ type.nodes, NodeQualified node

theorem Qualified.of_kind {kind : TypeKind} {name : String} (hp : kind ≠ .primitive)
    (he : kind ≠ .external) : Qualified (.mk kind name none []) :=
  forall_nodes_leaf ⟨fun h => absurd h hp, fun h => absurd h he⟩

theorem Qualified.wrapped {kind : TypeKind} {type : TypeRef} (h : type.Qualified)
    (hp : kind ≠ .primitive) (he : kind ≠ .external) : Qualified (.mk kind "" none [type]) :=
  forall_nodes_wrapped ⟨fun h => absurd h hp, fun h => absurd h he⟩ h

theorem qualified_external (q : String) : (external q).Qualified :=
  forall_nodes_leaf ⟨nofun, fun _ => ⟨q, rfl⟩⟩

theorem qualified_primitiveName {type : String} {format : Option String} {found : PrimitiveName}
    (h : primitiveName? type format = some found) :
    ∀ q, found.2 = some q → q = "java.util.Date" := by
  have hall : ∀ e ∈ primitiveNames, e.2.2 = none ∨ e.2.2 = some "java.util.Date" := by decide
  obtain ⟨entry, hentry, rfl⟩ := Option.map_eq_some_iff.mp h
  intro q hq
  rcases hall entry (List.mem_of_find?_eq_some hentry) with hnone | hdate
  · cases hnone.symm.trans hq
  · exact (Option.some.inj (hdate.symm.trans hq)).symm

theorem qualified_primitive (type : String) (format : Option String) :
    (primitive type format).Qualified := by
  refine forall_nodes_leaf ⟨fun _ q hq => ?_, nofun⟩
  cases hfound : (primitiveName? type format).or (primitiveName? type none) with
  | none => simp [TypeRef.qualified, hfound] at hq
  | some found =>
    simp only [TypeRef.qualified, hfound, Option.getD_some] at hq
    rcases Option.or_eq_some_iff.mp hfound with hfirst | ⟨-, hsecond⟩
    · exact qualified_primitiveName hfirst q hq
    · exact qualified_primitiveName hsecond q hq

/-- All types that mapping makes are qualified so. -/
theorem made_qualified : Made Qualified where
  external := qualified_external
  primitive := qualified_primitive
  bean _ := .of_kind (by decide) (by decide)
  enum _ := .of_kind (by decide) (by decide)
  binary := .of_kind (by decide) (by decide)
  any := .of_kind (by decide) (by decide)
  list _ h := h.wrapped (by decide) (by decide)
  map _ h := h.wrapped (by decide) (by decide)

end TypeRef

namespace Signature

open Step ApiContract.Types

variable {contract : Contract} {settings : Settings}

structure Qualified (s : Signature) : Prop where
  parameters : ∀ b ∈ s.parameters, b.type.Qualified
  returned : s.returnType.Qualified

theorem Qualified.returnTypeFor {s : Signature} (h : s.Qualified) (d : Dialect) :
    (s.returnTypeFor d).Qualified := by
  unfold Signature.returnTypeFor expressed
  dsimp only
  have hplain : (if s.returnType.kind == .rawResponse && !d.supportsRawResponse then
      TypeRef.binary else s.returnType).Qualified := by
    split
    · exact .of_kind (by decide) (by decide)
    · exact h.returned
  split
  · exact hplain.wrapped (by decide) (by decide)
  · exact hplain

theorem Shaped.qualified {op : Operation} {s : Signature} (h : s.Shaped TypeRef.Qualified op) :
    s.Qualified where
  parameters := h.parameters
  returned := by
    rcases h.returned with he | he | he
    · exact he ▸ .of_kind (by decide) (by decide)
    · exact he ▸ .of_kind (by decide) (by decide)
    · exact he

theorem qualified_resolve (op : Operation) (method : String) :
    Yields (TypeTables.Holding TypeRef.Qualified) (fun _ => false) Qualified
      (resolve contract settings op method) :=
  (shaped_resolve TypeRef.made_qualified op method).weaken fun _ h => h.qualified

end Signature

end ApiContract
