import ApiContract.Proofs.Endpoint.Signing
import ApiContract.Proofs.Types.Promises

/-! # Signatures refer to entries

Building a signature over linked tables keeps them linked, and the types of its
parameters and its return type are resolved in the tables that it leaves, whatever a
dialect makes of the return type.
-/
namespace ApiContract.Signature

open TypeTables ApiContract.Types

variable {contract : Contract} {settings : Settings}

structure Typed (contract : Contract) (t : TypeTables) (s : Signature) : Prop where
  parameters : ∀ b ∈ s.parameters, Resolved contract t b.type
  returned : Resolved contract t s.returnType

theorem Typed.reaches {t t' : TypeTables} {s : Signature} (h : Typed contract t s)
    (hr : t.Reaches t') : Typed contract t' s :=
  ⟨fun b hb => (h.parameters b hb).reaches hr, h.returned.reaches hr⟩

/-- A dialect wraps the return type or leaves it open, and names no other type. -/
theorem Typed.returnTypeFor {t : TypeTables} {s : Signature} (h : Typed contract t s)
    (d : Dialect) : Resolved contract t (s.returnTypeFor d) := by
  have hplain : Resolved contract t
      (if s.returnType.kind == .rawResponse && !d.supportsRawResponse then .binary
        else s.returnType) := by
    split
    · exact .of_leaf (by decide) (by decide)
    · exact h.returned
  unfold Signature.returnTypeFor expressed
  dsimp only
  split
  · exact hplain.wrapped (by decide) (by decide)
  · exact hplain

/-- A step that keeps the tables linked and gives a resolved type. -/
def Typing (contract : Contract) (step : Step TypeRef) : Prop :=
  ∀ w type w', step w = .ok type w' → Linked contract w.tables →
    w.tables.Reaches w'.tables ∧ Linked contract w'.tables ∧ Resolved contract w'.tables type

theorem typing_pure {type : TypeRef} (h : ∀ t, Resolved contract t type) :
    Typing contract (pure type) := by
  intro w _ w' hp hw
  cases hp
  exact ⟨Reaches.refl _, hw, h _⟩

theorem typing_mapSchema (schema : Option Schema) (owner : String) (role : Scalar) :
    Typing contract (mapSchema contract schema owner role) := by
  intro w type w' h hw
  obtain ⟨hw', htype⟩ := linking_mapSchema _ _ _ _ _ _ h hw
  exact ⟨((growing_mapSchema _ _ _).of_ok h).reaches hw.reserved, hw', htype⟩

theorem typing_payload {raw : TypeRef} (hraw : ∀ t, Resolved contract t raw) (schema : Schema)
    (method : String) (role : Scalar) :
    Typing contract (do
      let binary ← Step.lift (contract.isBinary (some schema))
      if binary then pure raw else mapSchema contract (some schema) method role) := by
  intro w type w' h hw
  obtain ⟨binary, v, hlift, h⟩ := Step.bind_eq_ok.mp h
  obtain ⟨-, rfl⟩ := Step.lift_eq_ok.mp hlift
  cases binary with
  | true => exact typing_pure hraw w type w' h hw
  | false => exact typing_mapSchema _ _ _ w type w' h hw

theorem typing_parameterType (p : Parameter) (method : String) :
    Typing contract (parameterType contract p method) := by
  unfold parameterType
  split
  · exact typing_pure fun t => .of_leaf (by decide) (by decide)
  · exact typing_mapSchema _ _ _

theorem typing_bodyType (body : RequestBody) (method : String) :
    Typing contract (bodyType contract body method) := by
  have hbinary : ∀ t, Resolved contract t .binary := fun t => .of_leaf (by decide) (by decide)
  unfold bodyType
  split
  · exact typing_pure hbinary
  · split
    · exact typing_pure hbinary
    · split
      · exact typing_pure hbinary
      · exact typing_payload hbinary _ _ _

theorem typing_returnTypeOf (method : String) (primary : Option Response) :
    Typing contract (returnTypeOf contract method primary) := by
  have hraw : ∀ t, Resolved contract t .rawResponse := fun t => .of_leaf (by decide) (by decide)
  cases primary with
  | none => exact typing_pure fun t => .of_leaf (by decide) (by decide)
  | some r =>
    unfold returnTypeOf responseType
    dsimp only
    split
    · exact typing_payload hraw _ _ _
    · exact typing_pure hraw

/-- Linked tables in which the types of all bindings so far are resolved. -/
structure Bound (contract : Contract) (bound : List Binding) (t : TypeTables) : Prop where
  linked : Linked contract t
  types : ∀ b ∈ bound, Resolved contract t b.type

theorem Bound.append {bound : List Binding} {binding : Binding} {t t' : TypeTables}
    (h : Bound contract bound t) (hr : t.Reaches t') (ht : Linked contract t')
    (hb : Resolved contract t' binding.type) : Bound contract (bound ++ [binding]) t' where
  linked := ht
  types := by
    intro b hmem
    rcases List.mem_append.mp hmem with hmem | hmem
    · exact (h.types b hmem).reaches hr
    · rw [List.mem_singleton.mp hmem]
      exact hb

theorem bound_bindParameter {method : String} {bound bound' : List Binding} {p : Parameter}
    {w w' : Workspace} (h : bindParameter contract method bound p w = .ok bound' w')
    (hw : Bound contract bound w.tables) :
    w.tables.Reaches w'.tables ∧ Bound contract bound' w'.tables := by
  obtain ⟨identifier, type, -, htype, rfl⟩ := bindParameter_eq_ok h
  obtain ⟨hr, ht, hresolved⟩ := typing_parameterType p method _ _ _ htype hw.linked
  exact ⟨hr, hw.append hr ht hresolved⟩

theorem bound_bindBodies {method : String} {bound bound' : List Binding}
    {bodies : List RequestBody} {w w' : Workspace}
    (h : bindBodies contract method bound bodies w = .ok bound' w')
    (hw : Bound contract bound w.tables) :
    w.tables.Reaches w'.tables ∧ Bound contract bound' w'.tables := by
  cases bodies with
  | nil =>
    cases h
    exact ⟨Reaches.refl _, hw⟩
  | cons body rest =>
    obtain ⟨name, identifier, type, -, -, htype, rfl⟩ := bindBody_eq_ok h
    obtain ⟨hr, ht, hresolved⟩ := typing_bodyType body method _ _ _ htype hw.linked
    exact ⟨hr, hw.append hr ht hresolved⟩

theorem bound_orderedParameters {method : String} {parameters : List Parameter}
    {bound : List Binding} {w w' : Workspace}
    (h : parameters.foldlM (bindParameter contract method) [] w = .ok bound w')
    (hw : Linked contract w.tables) :
    w.tables.Reaches w'.tables ∧ Bound contract bound w'.tables := by
  refine Step.foldlM_keeps (P := fun bound v => w.tables.Reaches v.tables ∧
    Bound contract bound v.tables) ?_ ⟨Reaches.refl _, hw, by simp⟩ h
  rintro bound v ⟨hr, hv⟩ p - bound' v' hp
  obtain ⟨hr', hv'⟩ := bound_bindParameter hp hv
  exact ⟨hr.trans hr', hv'⟩

theorem tables_of_primaryResponse {op : Operation} {primary : Option Response} {w w' : Workspace}
    (h : primaryResponse settings op w = .ok primary w') : w'.tables = w.tables := by
  have hkeeps : Step.Keeps Eq (primaryResponse settings op) :=
    primaryResponse_of Step.Keeps.compositional op
  exact (hkeeps.of_ok h).symm

theorem linked_build {op : Operation} {method : String} {s : Signature} {w w' : Workspace}
    (h : build contract settings op method w = .ok s w') (hw : Linked contract w.tables) :
    w.tables.Reaches w'.tables ∧ Linked contract w'.tables ∧ Typed contract w'.tables s := by
  obtain ⟨bound, primary, v₁, v₂, v₃, -, hbound, hparameters, hprimary, hreturn⟩ := build_eq_ok h
  obtain ⟨hr₁, hv₁⟩ := bound_orderedParameters hbound hw
  obtain ⟨hr₂, hv₂⟩ := bound_bindBodies hparameters hv₁
  rw [← tables_of_primaryResponse hprimary] at hr₂ hv₂
  obtain ⟨hr₃, hv₃, hresolved⟩ := typing_returnTypeOf method primary _ _ _ hreturn hv₂.linked
  refine ⟨(hr₁.trans hr₂).trans hr₃, hv₃, ?_, hresolved⟩
  exact fun b hb => (hv₂.types b hb).reaches hr₃

end ApiContract.Signature
