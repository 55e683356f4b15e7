import ApiContract.Proofs.Endpoint.Order
import ApiContract.Proofs.Endpoint.Signing
import ApiContract.Proofs.Types.Lookups

/-! # What a signature can fail over

Apart from the mapping of its schemas, the signature of an operation can fail over names and
places that are no texts, over response codes that have no order, and over the bodies that
have to be told from binary ones. Where none of these failures is of an excluded kind, a
signature is built with what mapping has for each schema of its operation.
-/
namespace ApiContract

open ApiContract.Types Step

variable {contract : Contract} {kind : Failure → Bool}

/-- Parameters and bodies have texts as names, and parameters as places. A body may also have
no name. -/
structure Operation.Named (op : Operation) : Prop where
  parameters : ∀ p ∈ op.parameters, p.name.text?.isSome = true ∧ p.place.text?.isSome = true
  bodies : ∀ b ∈ op.bodies, b.name.isTruthy = true → b.name.text?.isSome = true

instance (op : Operation) : Decidable op.Named :=
  decidable_of_iff (_ ∧ _) ⟨fun h => ⟨h.1, h.2⟩, fun h => ⟨h.1, h.2⟩⟩

/-- The failures that the signature of the operation can avoid where mapping its schemas does. -/
structure Operation.Avoids (contract : Contract) (settings : Settings) (kind : Failure → Bool)
    (op : Operation) : Prop where
  schema : ∀ fault location, kind (.schema fault location) = false
  named : kind .illTyped = true ∨ kind .tooLong = true → op.Named
  numbered : settings.responseRule = .lowest →
    ∀ r ∈ Signature.candidates op, (Signature.statusOrder r.code).Avoids kind
  binary : ∀ s ∈ op.schemas, (contract.isBinary (some s)).Avoids kind

theorem Operation.avoids_nothing (contract : Contract) (settings : Settings) (op : Operation) :
    op.Avoids contract settings fun _ => false where
  schema _ _ := rfl
  named ht := ht.elim nofun nofun
  numbered _ _ _ _ _ := rfl
  binary _ _ _ _ := rfl

theorem Excludes.binary (hk : Excludes contract kind) {op : Operation}
    (hs : ∀ s ∈ op.schemas, Reaching contract kind s) :
    ∀ s ∈ op.schemas, (contract.isBinary (some s)).Avoids kind := by
  intro s hmem
  refine (Contract.yields_isBinary hk ?_).avoids
  rintro _ ⟨⟩
  exact hs s hmem

theorem Scalar.isWritable_of_text? {s : Scalar} (h : s.text?.isSome = true) :
    s.isWritable = true := by
  cases s with
  | text => rfl
  | _ => cases h

namespace Signature

variable {settings : Settings} {op : Operation}

theorem yields_bodyName (h : op.Avoids contract settings kind) {body : RequestBody}
    (hb : body ∈ op.bodies) : (bodyName body).Yields kind (Spelled kind) := by
  unfold bodyName
  split
  · next htruthy =>
    have htext : kind .illTyped = true → ∃ text, body.name = .text text := fun ht =>
      have hsome := (h.named (.inl ht)).bodies body hb htruthy
      ⟨_, Tree.text?_eq_some.mp (Option.some_get hsome).symm⟩
    refine (Outcome.Yields.need fun hnone => Bool.eq_false_iff.mpr fun ht => ?_).weaken
      fun name hscalar ht => ?_
    · obtain ⟨text, hname⟩ := htext ht
      rw [hname] at hnone
      cases hnone
    · obtain ⟨text, hname⟩ := htext ht
      rw [hname] at hscalar
      cases hscalar
      rfl
  · exact spelled_text _

/-- A place and a name that are texts can be told. -/
theorem avoids_checkBindable (h : op.Avoids contract settings kind) :
    (checkBindable op).Avoids kind := by
  unfold checkBindable
  split
  · next p hp =>
    refine .error ?_
    unfold Failure.telling
    split
    · exact h.schema _ _
    · next hlong =>
      refine Bool.eq_false_iff.mpr fun ht => hlong ?_
      obtain ⟨hname, hplace⟩ :=
        (h.named (.inr ht)).parameters p (List.mem_of_find?_eq_some hp)
      simp [Tree.isWritable, Scalar.isWritable_of_text? hname, Scalar.isWritable_of_text? hplace]
  · split
    · refine .bind (.mapM fun body hb => ?_) fun names => .error (h.schema _ _)
      exact ((yields_bodyName h hb).bind fun name hname => .of_avoids (.need_some hname)).avoids
    · exact .ok _

theorem avoids_identifierOf {name place : Scalar} (hname : Spelled kind name)
    (hplace : Spelled kind place) (used : List String) :
    (identifierOf name place used).Avoids kind :=
  .bind (.need_some hname) fun _ => .bind (.need_some hplace) fun _ => .ok _

theorem avoids_statusOrder (hk : kind .notNumber = false) (code : String) :
    (statusOrder code).Avoids kind := by
  unfold statusOrder
  dsimp only
  split
  · exact .need hk _
  · exact .bind (.need hk _) fun hundred => .ok _

theorem yields_leastResponse {first : Response} {rest : List Response}
    (hordered : ∀ r ∈ first :: rest, (statusOrder r.code).Avoids kind) :
    (leastResponse first rest).Yields kind fun r => r ∈ first :: rest := by
  obtain ⟨hfirst, hrest⟩ := List.forall_mem_cons.mp hordered
  refine (Outcome.Yields.of_avoids hfirst).bind fun start _ => ?_
  have hfold : (rest.foldlM (fun (best : Response × Nat) (r : Response) => do
      let order ← statusOrder r.code
      pure (if order < best.2 then (r, order) else best)) (first, start)).Yields kind
        fun best : Response × Nat => best.1 ∈ first :: rest := by
    refine .foldlM (fun best hbest r hr => ?_) List.mem_cons_self
    refine (Outcome.Yields.of_avoids (hrest r hr)).bind fun order _ => .pure ?_
    split
    · exact List.mem_cons_of_mem _ hr
    · exact hbest
  exact hfold.bind fun best hbest => .pure hbest

section Threaded
variable {P : ∀ α : Type, (α → Prop) → Step α → Prop} (hP : Threaded kind P)
variable (h : op.Avoids contract settings kind)
include hP

include h in
theorem threads_primaryResponse :
    P (Option Response) (fun primary => ∀ r, primary = some r → r ∈ Table.values op.responses)
      (primaryResponse settings op) := by
  cases hc : candidates op with
  | nil =>
    unfold primaryResponse
    rw [hc]
    exact hP.pure (by simp)
  | cons first rest =>
    have hcandidates : ∀ r ∈ first :: rest, r ∈ Table.values op.responses := by
      intro r hr
      rw [← hc] at hr
      exact (List.mem_filter.mp hr).1
    rw [primaryResponse_eq_of_cons hc]
    refine hP.bind (Q := fun r => r ∈ first :: rest) ?_ fun primary hprimary => ?_
    · unfold chosenResponse
      split
      · exact hP.pure List.mem_cons_self
      · next hrule => exact hP.lift (yields_leastResponse (hc ▸ h.numbered hrule))
    · refine hP.bind (Q := fun _ => True) ?_ fun _ _ => hP.pure ?_
      · unfold reportAmbiguous
        split
        · exact hP.record _
        · exact hP.pure trivial
      · rintro r ⟨⟩
        exact hcandidates primary hprimary

theorem threads_bindParameter (method : String) (bound : List Binding) {p : Parameter}
    (hname : Spelled kind p.name) (hplace : Spelled kind p.place)
    (hmap : ∀ s, p.schema = some s → ∀ owner role, Spelled kind role →
      P TypeRef (fun _ => True) (mapSchema contract (some s) owner role)) :
    P (List Binding) (fun _ => True) (bindParameter contract method bound p) := by
  refine hP.bind (hP.lift (.of_avoids (avoids_identifierOf hname hplace _))) fun identifier _ => ?_
  refine hP.bind (Q := fun _ => True) ?_ fun type _ => hP.pure trivial
  unfold parameterType
  split
  · exact hP.pure trivial
  · next s hs => exact hmap s hs method p.name hname

/-- A schema has a given type if it is binary, and else it is mapped. -/
theorem threads_unlessBinary {s : Schema} (hs : (contract.isBinary (some s)).Avoids kind)
    (hmap : ∀ owner role, Spelled kind role →
      P TypeRef (fun _ => True) (mapSchema contract (some s) owner role))
    (binaryType : TypeRef) (method role : String) :
    P TypeRef (fun _ => True) (do
      let binary ← Step.lift (contract.isBinary (some s))
      if binary then pure binaryType else mapSchema contract (some s) method (.text role)) := by
  refine hP.bind (hP.lift (.of_avoids hs)) fun binary _ => ?_
  split
  · exact hP.pure trivial
  · exact hmap method (.text role) (spelled_text role)

theorem threads_bodyType (method : String) {body : RequestBody}
    (hb : ∀ s ∈ Content.schemas body.content, (contract.isBinary (some s)).Avoids kind)
    (hmap : ∀ s ∈ Content.schemas body.content, ∀ owner role, Spelled kind role →
      P TypeRef (fun _ => True) (mapSchema contract (some s) owner role)) :
    P TypeRef (fun _ => True) (bodyType contract body method) := by
  unfold bodyType
  split
  · exact hP.pure trivial
  · next schema rest hvalues =>
    split
    · exact hP.pure trivial
    · cases schema with
      | none => exact hP.pure trivial
      | some s =>
        have hs : s ∈ Content.schemas body.content :=
          List.reduceOption_mem_iff.mpr (hvalues ▸ List.mem_cons_self)
        exact threads_unlessBinary hP (hb s hs) (hmap s hs) _ method _

include h in
theorem threads_bindBodies (method : String) (bound : List Binding) {bodies : List RequestBody}
    (hbodies : bodies ⊆ op.bodies)
    (hb : ∀ b ∈ bodies, ∀ s ∈ Content.schemas b.content, (contract.isBinary (some s)).Avoids kind)
    (hmap : ∀ b ∈ bodies, ∀ s ∈ Content.schemas b.content, ∀ owner role, Spelled kind role →
      P TypeRef (fun _ => True) (mapSchema contract (some s) owner role)) :
    P (List Binding) (fun _ => True) (bindBodies contract method bound bodies) := by
  cases bodies with
  | nil => exact hP.pure trivial
  | cons body rest =>
    refine hP.bind (hP.lift (yields_bodyName h (hbodies List.mem_cons_self))) fun name hname => ?_
    refine hP.bind (hP.lift (.of_avoids (avoids_identifierOf hname (spelled_text _) _)))
      fun identifier _ => ?_
    exact hP.map (threads_bodyType hP method (hb body List.mem_cons_self)
      (hmap body List.mem_cons_self)) _

theorem threads_returnTypeOf (method : String) {primary : Option Response}
    (hr : ∀ r, primary = some r →
      ∀ s ∈ Content.schemas r.content, (contract.isBinary (some s)).Avoids kind)
    (hmap : ∀ r, primary = some r → ∀ s ∈ Content.schemas r.content, ∀ owner role,
      Spelled kind role → P TypeRef (fun _ => True) (mapSchema contract (some s) owner role)) :
    P TypeRef (fun _ => True) (returnTypeOf contract method primary) := by
  cases primary with
  | none => exact hP.pure trivial
  | some r =>
    unfold returnTypeOf responseType
    dsimp only
    split
    · next type s hcontent =>
      have hs : s ∈ Content.schemas r.content := by
        refine List.reduceOption_mem_iff.mpr ?_
        rw [hcontent]
        exact List.mem_cons_self
      exact threads_unlessBinary hP (hr r rfl s hs) (hmap r rfl s hs) _ method _
    · exact hP.pure trivial

include h in
/-- A signature is built with what mapping has for each schema of its operation. -/
theorem threads_build (method : String)
    (hmap : ∀ s ∈ op.schemas, ∀ owner role, Spelled kind role →
      P TypeRef (fun _ => True) (mapSchema contract (some s) owner role)) :
    P Signature (fun _ => True) (build contract settings op method) := by
  have hordered : ∀ p ∈ orderedParameters op, p ∈ op.parameters := by
    intro p hp
    simp only [orderedParameters, List.mem_append, List.mem_mergeSort, mem_parametersIn] at hp
    rcases hp with (hp | hp) | hp <;> exact hp.1
  have hparameter : ∀ p ∈ orderedParameters op, ∀ s, p.schema = some s → s ∈ op.schemas :=
    fun p hp s hs => ContractReader.mem_schemas.mpr (Or.inl ⟨p, hordered p hp, hs⟩)
  have hbody : ∀ b ∈ op.bodies, ∀ s ∈ Content.schemas b.content, s ∈ op.schemas :=
    fun b hb s hs => ContractReader.mem_schemas.mpr (Or.inr (Or.inl ⟨b, hb, hs⟩))
  have hresponse : ∀ r ∈ Table.values op.responses, ∀ s ∈ Content.schemas r.content,
      s ∈ op.schemas :=
    fun r hr s hs => ContractReader.mem_schemas.mpr (Or.inr (Or.inr ⟨r, hr, hs⟩))
  rw [build_eq]
  refine hP.bind (hP.lift (.of_avoids (avoids_checkBindable h))) fun _ _ => ?_
  refine hP.bind (hP.foldlM (fun bound p hp => threads_bindParameter hP method bound
    (fun ht => ((h.named (.inl ht)).parameters p (hordered p hp)).1)
    (fun ht => ((h.named (.inl ht)).parameters p (hordered p hp)).2)
    fun s hs => hmap s (hparameter p hp s hs)) _) fun bound _ => ?_
  refine hP.bind (threads_bindBodies hP h method bound (List.Subset.refl _)
    (fun b hb s hs => h.binary s (hbody b hb s hs))
    fun b hb s hs => hmap s (hbody b hb s hs)) fun parameters _ => ?_
  refine hP.bind (threads_primaryResponse hP h) fun primary hprimary => ?_
  refine hP.bind (threads_returnTypeOf hP method
    (fun r hr s hs => h.binary s (hresponse r (hprimary r hr) s hs))
    fun r hr s hs => hmap s (hresponse r (hprimary r hr) s hs)) fun returnType _ => ?_
  unfold assembled
  split
  · exact hP.fail (h.schema _ _)
  · exact hP.pure trivial

end Threaded

theorem listed_resolve (hk : Excludes contract kind) (h : op.Avoids contract settings kind)
    (hs : ∀ s ∈ op.schemas, Reaching contract kind s) (method : String) :
    Guards (Listed contract) kind (resolve contract settings op method) := by
  refine .bind .tables fun t _ => ?_
  refine .bind (.attempt (threads_build Yields.threaded h method fun s hmem owner _ hrole =>
    (finding_mapSchema hk).part (hs s hmem) owner hrole)) fun r _ => ?_
  split
  · exact .pure trivial
  · exact .bind (.modifyTables fun _ ht => ht) fun _ _ => .fail (h.schema _ _)

end Signature

end ApiContract
