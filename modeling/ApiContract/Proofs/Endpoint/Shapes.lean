import ApiContract.Proofs.Endpoint.Attempts
import ApiContract.Proofs.Types.Shapes

/-! # Types in signatures

The types of the parameters of a signature have what all types have that mapping makes. Its
return type is one of these, or nothing, or a raw response, and nothing is returned by no
asynchronous operation. Every attempt that signs an endpoint stores such a signature, and
later attempts leave it as it is.
-/
namespace ApiContract

namespace Signature

open Step ApiContract.Types

variable {contract : Contract} {settings : Settings} {P : TypeRef → Prop}

/-- What a signature returns: nothing, a raw response, or a type with the property. -/
def Returned (P : TypeRef → Prop) (type : TypeRef) : Prop :=
  type = .void ∨ type = .rawResponse ∨ P type

/-- A signature for an operation, the types of which have the property. -/
structure Shaped (P : TypeRef → Prop) (op : Operation) (s : Signature) : Prop where
  parameters : ∀ b ∈ s.parameters, P b.type
  returned : Returned P s.returnType
  async : s.isAsync = op.isAsync
  body : s.isAsync = true → s.returnType.kind ≠ .void

theorem gives_parameterType (made : TypeRef.Made P) (p : Parameter) (method : String) :
    Gives P (parameterType contract p method) := by
  unfold parameterType
  split
  · exact .pure (made.primitive _ _)
  · exact giving_mapSchema made _ _ _

theorem yields_payload (made : TypeRef.Made P) {Q : TypeRef → Prop} (hQ : ∀ type, P type → Q type)
    {raw : TypeRef} (hraw : Q raw) (schema : Schema) (method : String) (role : Scalar) :
    Yields (TypeTables.Holding P) (fun _ => false) Q (do
      let binary ← Step.lift (contract.isBinary (some schema))
      if binary then pure raw else mapSchema contract (some schema) method role) := by
  refine .bind (.lift_any _) fun binary _ => ?_
  split
  · exact .pure hraw
  · exact (giving_mapSchema made _ _ _).weaken hQ

theorem gives_bodyType (made : TypeRef.Made P) (body : RequestBody) (method : String) :
    Gives P (bodyType contract body method) := by
  unfold bodyType
  split
  · exact .pure made.binary
  · split
    · exact .pure made.binary
    · split
      · exact .pure made.binary
      · exact yields_payload made (fun _ h => h) made.binary _ _ _

theorem yields_returnTypeOf (made : TypeRef.Made P) (method : String)
    (primary : Option Response) :
    Yields (TypeTables.Holding P) (fun _ => false) (Returned P)
      (returnTypeOf contract method primary) := by
  have hraw : Returned P .rawResponse := Or.inr (Or.inl rfl)
  have hmapped : ∀ type, P type → Returned P type := fun _ h => Or.inr (Or.inr h)
  cases primary with
  | none => exact .pure (Or.inl rfl)
  | some r =>
    unfold returnTypeOf responseType
    dsimp only
    split
    · exact yields_payload made hmapped hraw _ _ _
    · exact .pure hraw

/-- A step that binds more parameters, the types of which have the property. -/
abbrev BindsAll (P : TypeRef → Prop) (step : Step (List Binding)) : Prop :=
  Yields (TypeTables.Holding P) (fun _ => false) (fun bound => ∀ b ∈ bound, P b.type) step

theorem bindsAll_bindParameter (made : TypeRef.Made P) (method : String) {bound : List Binding}
    (hbound : ∀ b ∈ bound, P b.type) (p : Parameter) :
    BindsAll P (bindParameter contract method bound p) := by
  refine .bind (.lift_any _) fun identifier _ => ?_
  refine .bind (gives_parameterType made p method) fun type htype => .pure ?_
  exact List.forall_mem_append.mpr ⟨hbound, by simpa using htype⟩

theorem bindsAll_bindBodies (made : TypeRef.Made P) (method : String) {bound : List Binding}
    (hbound : ∀ b ∈ bound, P b.type) (bodies : List RequestBody) :
    BindsAll P (bindBodies contract method bound bodies) := by
  cases bodies with
  | nil => exact .pure hbound
  | cons body rest =>
    refine .bind (.lift_any _) fun name _ => ?_
    refine .bind (.lift_any _) fun identifier _ => ?_
    refine .bind (gives_bodyType made body method) fun type htype => .pure ?_
    exact List.forall_mem_append.mpr ⟨hbound, by simpa using htype⟩

theorem retains_primaryResponse (op : Operation) : Retains P (primaryResponse settings op) :=
  primaryResponse_of Yields.compositional op

theorem shaped_build (made : TypeRef.Made P) (op : Operation) (method : String) :
    Yields (TypeTables.Holding P) (fun _ => false) (Shaped P op)
      (build contract settings op method) := by
  rw [build_eq]
  refine .bind (.lift_any _) fun _ _ => ?_
  refine .bind (.foldlM_all (fun bound hbound p _ => bindsAll_bindParameter made method hbound p)
    (by simp)) fun bound hbound => ?_
  refine .bind (bindsAll_bindBodies made method hbound op.bodies) fun parameters hparameters => ?_
  refine .bind (retains_primaryResponse op) fun primary _ => ?_
  refine .bind (yields_returnTypeOf made method primary) fun returnType hreturned => ?_
  unfold assembled
  split
  · exact .fail rfl
  · next hcheck =>
    refine .pure ⟨hparameters, hreturned, rfl, fun hasync hvoid => hcheck ?_⟩
    have hasync : op.isAsync = true := hasync
    rw [hasync, show returnType.kind = .void from hvoid]
    rfl

theorem shaped_resolve (made : TypeRef.Made P) (op : Operation) (method : String) :
    Yields (TypeTables.Holding P) (fun _ => false) (Shaped P op)
      (resolve contract settings op method) := by
  refine .bind .tables fun t _ => ?_
  refine .bind (.attempt_all (shaped_build made op method)) fun result hresult => ?_
  split
  · exact .pure (hresult _ rfl)
  · exact .bind (.modifyTables fun u hu => hu.rollback t.mark) fun _ _ => .fail rfl

/-- Attempts leave the signatures of other endpoints as they are. -/
theorem Attempts.get?_of_not_mem {es kept : List Endpoint} {refused : List (Endpoint × Fault)}
    {w w' : Workspace} (h : Attempts contract settings es w kept refused w') {label : String}
    (other : label ∉ es.map Endpoint.label) :
    Table.get? w'.signatures label = Table.get? w.signatures label := by
  induction h with
  | done => rfl
  | @signed e rest kept refused w v w' s resolved _ ih =>
    obtain ⟨hlabel, hrest⟩ := not_or.mp (mt List.mem_cons.mpr other)
    have hold : v.signatures = w.signatures := (resolve_keepsSignatures _ _).of_ok resolved
    have hput : Table.get? (Table.put v.signatures e.operation.label s) label =
        Table.get? w.signatures label := hold ▸ Table.get?_put_ne v.signatures s hlabel
    exact (ih hrest).trans hput
  | @refused e rest kept refused w v w' fault location event failed _ ih =>
    obtain ⟨-, hrest⟩ := not_or.mp (mt List.mem_cons.mpr other)
    have hold : v.signatures = w.signatures := (resolve_keepsSignatures _ _).of_error failed
    exact hold ▸ ih hrest

/-- What every attempt gives its signature holds of all that were stored. -/
theorem Attempts.yields {I : TypeTables → Prop} {Q : Signature → Prop}
    (hresolve : ∀ op method,
      Yields I (fun _ => false) Q (resolve contract settings op method))
    {es kept : List Endpoint} {refused : List (Endpoint × Fault)} {w w' : Workspace}
    (h : Attempts contract settings es w kept refused w') (hw : I w.tables)
    (hs : ∀ e ∈ w.signatures, Q e.2) : I w'.tables ∧ ∀ e ∈ w'.signatures, Q e.2 := by
  induction h with
  | done => exact ⟨hw, hs⟩
  | @signed e rest kept refused w v w' s resolved _ ih =>
    have hstep := hresolve e.operation e.methodName w hw
    rw [resolved] at hstep
    refine ih hstep.2 fun entry hentry => ?_
    rcases Table.mem_put hentry with hentry | rfl
    · exact hs entry ((resolve_keepsSignatures _ _).of_ok resolved ▸ hentry)
    · exact hstep.1
  | @refused e rest kept refused w v w' fault location event failed _ ih =>
    have hstep := hresolve e.operation e.methodName w hw
    rw [failed] at hstep
    refine ih hstep.2 fun entry hentry => ?_
    exact hs entry ((resolve_keepsSignatures _ _).of_error failed ▸ hentry)

/-- Each endpoint that was kept has the signature that its attempt gave. -/
theorem Attempts.yields_each {I : TypeTables → Prop} {Q : Operation → Signature → Prop}
    (hresolve : ∀ op method,
      Yields I (fun _ => false) (Q op) (resolve contract settings op method))
    {es kept : List Endpoint} {refused : List (Endpoint × Fault)} {w w' : Workspace}
    (h : Attempts contract settings es w kept refused w')
    (apart : (es.map Endpoint.label).Nodup) (hw : I w.tables) :
    ∀ e ∈ kept, ∃ s, Table.get? w'.signatures e.label = some s ∧ Q e.operation s := by
  induction h with
  | done => simp
  | @signed e rest kept refused w v w' s resolved others ih =>
    obtain ⟨hfirst, hrest⟩ := List.nodup_cons.mp apart
    have hstep := hresolve e.operation e.methodName w hw
    rw [resolved] at hstep
    refine List.forall_mem_cons.mpr ⟨⟨s, ?_, hstep.1⟩, ih hrest hstep.2⟩
    exact (others.get?_of_not_mem hfirst).trans (Table.get?_put_self v.signatures _ s)
  | @refused e rest kept refused w v w' fault location event failed _ ih =>
    have hstep := hresolve e.operation e.methodName w hw
    rw [failed] at hstep
    exact ih (List.nodup_cons.mp apart).2 hstep.2

end Signature

end ApiContract
