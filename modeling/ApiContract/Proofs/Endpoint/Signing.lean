import ApiContract.Endpoint.Signature
import ApiContract.Proofs.Endpoint.Plain
import ApiContract.Proofs.Types.Mapping

/-! # Signatures and the tables

Building a signature adds to the tables. A signature that fails with a schema fault
leaves them as they were, so that the signatures and tables of a row of operations
are those of the operations that succeed.
-/
namespace ApiContract.Signature

open TypeTables ApiContract.Types

variable {contract : Contract} {settings : Settings}

def chosenResponse (settings : Settings) (first : Response) (rest : List Response) :
    Step Response :=
  match settings.responseRule with
  | .first => pure first
  | .lowest => Step.lift (leastResponse first rest)

def reportAmbiguous (settings : Settings) (op : Operation) (responses : List Response)
    (primary : Response) : Step Unit :=
  if isAmbiguous responses then
    Step.record (.ambiguousResponse op.label (responses.map Response.code) primary.code
      settings.responseRule.name)
  else pure ()

theorem primaryResponse_eq_of_cons {op : Operation} {first : Response} {rest : List Response}
    (h : candidates op = first :: rest) :
    primaryResponse settings op = (do
      let primary ← chosenResponse settings first rest
      reportAmbiguous settings op (first :: rest) primary
      pure (some primary)) := by
  unfold primaryResponse chosenResponse reportAmbiguous
  rw [h]
  cases hr : settings.responseRule <;> dsimp only <;> congr 1 <;> funext primary <;>
    by_cases ha : isAmbiguous (first :: rest) = true <;> simp [ha]

def bindBodies (contract : Contract) (method : String) (bound : List Binding) :
    List RequestBody → Step (List Binding)
  | [] => pure bound
  | body :: _ => bindBody contract method bound body

def returnTypeOf (contract : Contract) (method : String) : Option Response → Step TypeRef
  | none => pure .void
  | some r => responseType contract r method

def consumedBy : List RequestBody → List Scalar
  | [] => []
  | body :: _ => declared body.content

def producedBy : Option Response → List Scalar
  | none => []
  | some r => declared r.content

def assembled (op : Operation) (method : String) (parameters : List Binding)
    (primary : Option Response) (returnType : TypeRef) : Step Signature :=
  if op.isAsync && returnType.kind == .void then
    Step.fail (.schema .asyncWithoutBody op.label)
  else
    pure { methodName := method, parameters, returnType, isAsync := op.isAsync,
           produces := producedBy primary, consumes := consumedBy op.bodies }

theorem build_eq (op : Operation) (method : String) :
    build contract settings op method = (do
      Step.lift (checkBindable op)
      let bound ← (orderedParameters op).foldlM (bindParameter contract method) []
      let parameters ← bindBodies contract method bound op.bodies
      let primary ← primaryResponse settings op
      let returnType ← returnTypeOf contract method primary
      assembled op method parameters primary returnType) := by
  unfold build
  congr 1
  funext _
  congr 1
  funext bound
  cases hb : op.bodies with
  | nil =>
    simp only [bindBodies, pure_bind]
    congr 1
    funext primary
    cases primary <;> simp only [returnTypeOf, pure_bind, assembled, hb, consumedBy, producedBy]
  | cons body rest =>
    simp only [bindBodies]
    congr 1
    funext parameters
    congr 1
    funext primary
    cases primary <;> simp only [returnTypeOf, pure_bind, assembled, hb, consumedBy, producedBy]

theorem bindParameter_eq_ok {method : String} {bound bound' : List Binding} {p : Parameter}
    {w w' : Workspace} (h : bindParameter contract method bound p w = .ok bound' w') :
    ∃ identifier type,
      identifierOf p.name p.place (bound.map Binding.identifier) = .ok identifier ∧
      parameterType contract p method w = .ok type w' ∧
      bound' = bound ++ [
        { name := p.name, identifier, place := p.place, type, required := p.required,
          description := p.description }] := by
  obtain ⟨identifier, v, hlift, h⟩ := Step.bind_eq_ok.mp h
  obtain ⟨hidentifier, rfl⟩ := Step.lift_eq_ok.mp hlift
  obtain ⟨type, v, htype, h⟩ := Step.bind_eq_ok.mp h
  cases h
  exact ⟨identifier, type, hidentifier, htype, rfl⟩

theorem bindBody_eq_ok {method : String} {bound bound' : List Binding} {body : RequestBody}
    {w w' : Workspace} (h : bindBody contract method bound body w = .ok bound' w') :
    ∃ name identifier type, bodyName body = .ok name ∧
      identifierOf name (.text "body") (bound.map Binding.identifier) = .ok identifier ∧
      bodyType contract body method w = .ok type w' ∧
      bound' = bound ++ [
        { name, identifier, place := .text "body", type, required := body.required,
          description := body.description }] := by
  obtain ⟨name, v, hlift, h⟩ := Step.bind_eq_ok.mp h
  obtain ⟨hname, rfl⟩ := Step.lift_eq_ok.mp hlift
  obtain ⟨identifier, v, hlift, h⟩ := Step.bind_eq_ok.mp h
  obtain ⟨hidentifier, rfl⟩ := Step.lift_eq_ok.mp hlift
  obtain ⟨type, v, htype, h⟩ := Step.bind_eq_ok.mp h
  cases h
  exact ⟨name, identifier, type, hname, hidentifier, htype, rfl⟩

/-- The stages of a signature that was built. -/
theorem build_eq_ok {op : Operation} {method : String} {s : Signature} {w w' : Workspace}
    (h : build contract settings op method w = .ok s w') :
    ∃ bound primary v₁ v₂ v₃, checkBindable op = .ok () ∧
      (orderedParameters op).foldlM (bindParameter contract method) [] w = .ok bound v₁ ∧
      bindBodies contract method bound op.bodies v₁ = .ok s.parameters v₂ ∧
      primaryResponse settings op v₂ = .ok primary v₃ ∧
      returnTypeOf contract method primary v₃ = .ok s.returnType w' := by
  rw [build_eq] at h
  obtain ⟨⟨⟩, v, hlift, h⟩ := Step.bind_eq_ok.mp h
  obtain ⟨hcheck, rfl⟩ := Step.lift_eq_ok.mp hlift
  obtain ⟨bound, v₁, hbound, h⟩ := Step.bind_eq_ok.mp h
  obtain ⟨parameters, v₂, hparameters, h⟩ := Step.bind_eq_ok.mp h
  obtain ⟨primary, v₃, hprimary, h⟩ := Step.bind_eq_ok.mp h
  obtain ⟨returnType, v₄, hreturn, h⟩ := Step.bind_eq_ok.mp h
  unfold assembled at h
  split at h
  · cases h
  · cases h
    exact ⟨bound, primary, v₁, v₂, v₃, hcheck, hbound, hparameters, hprimary, hreturn⟩

section Compositional
variable {P : ∀ α : Type, Step α → Prop} (hP : Step.Compositional P)
variable (hmap : ∀ schema owner role, P TypeRef (mapSchema contract schema owner role))
include hP

theorem primaryResponse_of (op : Operation) :
    P (Option Response) (primaryResponse settings op) := by
  cases hc : candidates op with
  | nil =>
    unfold primaryResponse
    rw [hc]
    exact hP.pure _
  | cons first rest =>
    rw [primaryResponse_eq_of_cons hc]
    refine hP.bind ?_ fun primary => hP.map ?_ _
    · unfold chosenResponse
      split
      · exact hP.pure _
      · exact hP.lift (plain_leastResponse first rest)
    · unfold reportAmbiguous
      split
      · exact hP.record _
      · exact hP.pure _

include hmap

theorem bindParameter_of (method : String) (bound : List Binding) (p : Parameter) :
    P (List Binding) (bindParameter contract method bound p) := by
  refine hP.bind (hP.lift (plain_identifierOf _ _ _)) fun identifier => ?_
  refine hP.map ?_ _
  unfold parameterType
  split
  · exact hP.pure _
  · exact hmap _ _ _

theorem payload_of (schema : Schema) (method : String) (role : Scalar) (raw : TypeRef) :
    P TypeRef (do
      let binary ← Step.lift (contract.isBinary (some schema))
      if binary then pure raw else mapSchema contract (some schema) method role) := by
  refine hP.bind (hP.lift (contract.plain_isBinary _)) fun binary => ?_
  split
  · exact hP.pure _
  · exact hmap _ _ _

theorem bodyType_of (body : RequestBody) (method : String) :
    P TypeRef (bodyType contract body method) := by
  unfold bodyType
  split
  · exact hP.pure _
  · split
    · exact hP.pure _
    · split
      · exact hP.pure _
      · exact payload_of hP hmap _ _ _ _

theorem bindBodies_of (method : String) (bound : List Binding) (bodies : List RequestBody) :
    P (List Binding) (bindBodies contract method bound bodies) := by
  cases bodies with
  | nil => exact hP.pure _
  | cons body rest =>
    refine hP.bind (hP.lift (plain_bodyName body)) fun name => ?_
    refine hP.bind (hP.lift (plain_identifierOf _ _ _)) fun identifier => ?_
    exact hP.map (bodyType_of hP hmap body method) _

theorem returnTypeOf_of (method : String) (primary : Option Response) :
    P TypeRef (returnTypeOf contract method primary) := by
  cases primary with
  | none => exact hP.pure _
  | some r =>
    unfold returnTypeOf responseType
    dsimp only
    split
    · exact payload_of hP hmap _ _ _ _
    · exact hP.pure _

theorem build_of (op : Operation) (method : String) :
    P Signature (build contract settings op method) := by
  rw [build_eq]
  refine hP.bind (hP.lift (plain_checkBindable op)) fun _ => ?_
  refine hP.bind (hP.foldlM (fun s p _ => bindParameter_of hP hmap method s p) _) fun bound => ?_
  refine hP.bind (bindBodies_of hP hmap method bound op.bodies) fun parameters => ?_
  refine hP.bind (primaryResponse_of hP op) fun primary => ?_
  refine hP.bind (returnTypeOf_of hP hmap method primary) fun returnType => ?_
  unfold assembled
  split
  · exact hP.fail rfl
  · exact hP.pure _

end Compositional

theorem keeps_build (op : Operation) (method : String) :
    Step.Keeps Grows (build contract settings op method) :=
  build_of Step.Keeps.compositional growing_mapSchema op method

theorem resolve_eq_ok {op : Operation} {method : String} {s : Signature} {w w' : Workspace} :
    resolve contract settings op method w = .ok s w' ↔
      build contract settings op method w = .ok s w' := by
  simp only [resolve, Step.bind_apply, Step.tables_apply, Step.attempt]
  cases build contract settings op method w with
  | ok a v => simp
  | error e v => cases e <;> simp [Step.bind_apply]

/-- A signature fails as it fails to be built; a schema fault is rolled back. -/
theorem resolve_eq_error {op : Operation} {method : String} {e : Failure} {w w' : Workspace}
    (h : resolve contract settings op method w = .error e w') :
    ∃ v, build contract settings op method w = .error e v ∧
      ((e.isSchema = true ∧ w'.tables = v.tables.rollback w.tables.mark) ∨
        (e.isSchema = false ∧ w' = v)) := by
  simp only [resolve, Step.bind_apply, Step.tables_apply, Step.attempt] at h
  cases hb : build contract settings op method w with
  | ok a v => simp [hb] at h
  | error e' v =>
    rw [hb] at h
    cases e' with
    | schema f l =>
      cases h
      exact ⟨v, rfl, Or.inl ⟨rfl, rfl⟩⟩
    | _ =>
      cases h
      exact ⟨_, rfl, Or.inr ⟨rfl, rfl⟩⟩

/-- A schema fault of a signature leaves the tables as they were. -/
theorem tables_of_resolve_eq_error {op : Operation} {method : String} {f : SchemaFault}
    {l : String} {w w' : Workspace} (ht : w.tables.Reserved)
    (h : resolve contract settings op method w = .error (.schema f l) w') :
    w'.tables = w.tables := by
  obtain ⟨v, hb, ⟨-, hback⟩ | ⟨hplain, -⟩⟩ := resolve_eq_error h
  · rw [hback, ((keeps_build op method).of_error hb).rollback ht]
  · cases hplain

theorem keeps_resolve (op : Operation) (method : String) :
    Step.Keeps Grows (resolve contract settings op method) := by
  intro w
  cases hr : resolve contract settings op method w with
  | ok s v => exact (keeps_build op method).of_ok (resolve_eq_ok.mp hr)
  | error e v =>
    obtain ⟨u, hb, ⟨-, hback⟩ | ⟨-, rfl⟩⟩ := resolve_eq_error hr
    · intro ht
      rw [Step.outcome_error, hback, ((keeps_build op method).of_error hb).rollback ht]
      exact Grows.refl _ ht
    · exact (keeps_build op method).of_error hb

theorem reserved_of_resolve_eq_ok {op : Operation} {method : String} {s : Signature}
    {w w' : Workspace} (ht : w.tables.Reserved)
    (h : resolve contract settings op method w = .ok s w') : w'.tables.Reserved :=
  ((keeps_build op method).of_ok (resolve_eq_ok.mp h)).reserved ht

theorem resolve_of {P : ∀ α : Type, Step α → Prop} (hP : Step.Uniform P) (op : Operation)
    (method : String) : P Signature (resolve contract settings op method) := by
  refine hP.bind hP.tables fun t => ?_
  have hbuild : P Signature (build contract settings op method) :=
    build_of hP.toCompositional (mapSchema_of hP) op method
  refine hP.bind (hP.attempt hbuild) fun result => ?_
  cases result with
  | ok signature => exact hP.pure _
  | error fault => exact hP.bind (hP.modifyTables _) fun _ => hP.fail rfl

theorem reads_resolve (op : Operation) (method : String) :
    Step.ReadsTables (resolve contract settings op method) :=
  resolve_of Step.ReadsTables.uniform op method

end ApiContract.Signature
