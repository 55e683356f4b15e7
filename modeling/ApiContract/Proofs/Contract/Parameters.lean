import ApiContract.Proofs.Contract.Labels

/-! # Parameters of operations

The parameters of an operation that was read have different places or names, however the
shared ones of its path item were merged in, and those in the path are the placeholders of
its template: each placeholder is declared, and nothing else is.
-/
namespace ApiContract

theorem Scalar.beq_text_iff {x : Scalar} {s : String} : (x == .text s) = true ↔ x = .text s := by
  cases x with
  | text a => simp
  | _ => simp [BEq.beq, Scalar.same, Scalar.measure?, Scalar.number?]

theorem Scalar.text?_eq_some {x : Scalar} {s : String} : x.text? = some s ↔ x = .text s := by
  cases x <;> simp [Scalar.text?]

theorem Scalar.exists_measure (x : Binary64) : ∃ m, (Scalar.float x).measure? = some m := by
  simp only [measure?, number?]
  split
  · exact ⟨_, rfl⟩
  · split <;> exact ⟨_, rfl⟩

instance : ReflBEq Scalar where
  rfl {x} := by
    cases x with
    | null => rfl
    | text s => exact beq_self_eq_true s
    | date y m d => simp [BEq.beq, Scalar.same]
    | instant t => simp [BEq.beq, Scalar.same, Scalar.measure?]
    | bool b => simp [BEq.beq, Scalar.same, Scalar.measure?, Scalar.number?]
    | int n => simp [BEq.beq, Scalar.same, Scalar.measure?, Scalar.number?]
    | float f =>
      obtain ⟨m, hm⟩ := Scalar.exists_measure f
      simp [BEq.beq, Scalar.same, hm]

/-- Two scalars count as the same when they are equal, the same number or the same moment. -/
theorem Scalar.beq_iff {x y : Scalar} :
    (x == y) = true ↔ x = y ∨ ∃ m, x.measure? = some m ∧ y.measure? = some m := by
  constructor
  · intro h
    change Scalar.same x y = true at h
    unfold Scalar.same at h
    split at h
    · exact Or.inl (congrArg _ (beq_iff_eq.mp h))
    · exact Or.inl rfl
    · simp only [Bool.and_eq_true, beq_iff_eq] at h
      obtain ⟨⟨rfl, rfl⟩, rfl⟩ := h
      exact Or.inl rfl
    · split at h
      · next hx hy => exact Or.inr ⟨_, (beq_iff_eq.mp h) ▸ hx, hy⟩
      · cases h
  · rintro (rfl | ⟨m, hx, hy⟩)
    · exact BEq.rfl
    · change Scalar.same x y = true
      unfold Scalar.same
      split
      · cases hx
      · cases hx
      · cases hx
      · rw [hx, hy]
        exact beq_self_eq_true m

/-- The same moment at two offsets. -/
example : Scalar.instant ⟨2024, 1, 1, 0, 30, 0, 0, some 3600⟩ ==
    .instant ⟨2023, 12, 31, 23, 30, 0, 0, some 0⟩ := by decide

instance : EquivBEq Scalar where
  rfl := BEq.rfl
  symm h := by
    rcases Scalar.beq_iff.mp h with rfl | ⟨m, ha, hb⟩
    · exact h
    · exact Scalar.beq_iff.mpr (Or.inr ⟨m, hb, ha⟩)
  trans hab hbc := by
    rcases Scalar.beq_iff.mp hab with rfl | ⟨m, ha, hb⟩
    · exact hbc
    · rcases Scalar.beq_iff.mp hbc with rfl | ⟨n, hb', hc⟩
      · exact hab
      · exact Scalar.beq_iff.mpr (Or.inr ⟨m, ha, hb.symm.trans hb' ▸ hc⟩)

namespace ContractReader

theorem keysApart_addShared {scope : Scope} {location : String} {merged merged' : Declarations}
    {entry : Tree × Nat} (hm : Table.KeysApart merged)
    (h : addShared scope location merged entry = .ok merged') : Table.KeysApart merged' := by
  obtain ⟨node, -, h⟩ := Outcome.bind_eq_ok.mp h
  obtain ⟨fields, -, h⟩ := Outcome.bind_eq_ok.mp h
  obtain ⟨key, -, h⟩ := Outcome.bind_eq_ok.mp h
  cases h
  exact hm.put _ _

theorem keysApart_addOwn {scope : Scope} {location label : String} {state state' : OwnState}
    {entry : Tree × Nat} (hs : Table.KeysApart state.merged)
    (h : addOwn scope location label state entry = .ok state') :
    Table.KeysApart state'.merged := by
  obtain ⟨node, -, h⟩ := Outcome.bind_eq_ok.mp h
  obtain ⟨fields, -, h⟩ := Outcome.bind_eq_ok.mp h
  dsimp only at h
  split at h
  · obtain ⟨named, -, h⟩ := Outcome.bind_eq_ok.mp h
    obtain ⟨key, -, h⟩ := Outcome.bind_eq_ok.mp h
    split at h
    · cases h
    · cases h
      exact hs.put _ _
  · obtain ⟨named, hnone, -⟩ := Outcome.bind_eq_ok.mp h
    cases hnone

theorem keysApart_mergeParameters {scope : Scope} {itemLocation location label : String}
    {shared own : Tree} {merged : Declarations}
    (h : mergeParameters scope itemLocation location label shared own = .ok merged) :
    Table.KeysApart merged := by
  obtain ⟨sharedNodes, -, h⟩ := Outcome.bind_eq_ok.mp h
  obtain ⟨start, hstart, h⟩ := Outcome.bind_eq_ok.mp h
  obtain ⟨ownNodes, -, h⟩ := Outcome.bind_eq_ok.mp h
  obtain ⟨state, hstate, h⟩ := Outcome.bind_eq_ok.mp h
  cases h
  have hnone : Table.KeysApart ([] : Declarations) := List.Pairwise.nil
  have hshared : Table.KeysApart start :=
    Outcome.foldlM_keeps (fun _ hm _ _ _ h => keysApart_addShared hm h) hnone hstart
  exact Outcome.foldlM_keeps (P := fun state : OwnState => Table.KeysApart state.merged)
    (fun _ hs _ _ _ h => keysApart_addOwn hs h) hshared hstate

def keyOfParameter (p : Parameter) : Scalar × Scalar := (p.place, p.name)

/-- The parameters of an operation come from its declarations, in their order. -/
theorem keys_of_bindDeclared {scope : Scope} {node : Fields} {merged : Declarations}
    {op op' : Operation} (h : merged.foldlM (bindDeclared scope node) op = .ok op') :
    ∃ keys, keys.Sublist (Table.keys merged) ∧
      op'.parameters.map keyOfParameter = op.parameters.map keyOfParameter ++ keys := by
  induction merged generalizing op with
  | nil =>
    cases h
    exact ⟨[], List.Sublist.refl _, by simp⟩
  | cons entry rest ih =>
    rw [List.foldlM_cons] at h
    obtain ⟨next, hnext, h⟩ := Outcome.bind_eq_ok.mp h
    obtain ⟨keys, hsub, hkeys⟩ := ih h
    rcases bindDeclared_eq_ok hnext with ⟨body, rfl⟩ | ⟨p, hp, rfl⟩
    · exact ⟨keys, hsub.cons _, hkeys⟩
    · refine ⟨entry.1 :: keys, hsub.cons_cons _, ?_⟩
      rw [hkeys, List.map_append, List.append_assoc]
      simp [keyOfParameter, hp]

/-- What an operation declares: parameters apart, and in the path its placeholders. -/
structure Declares (op : Operation) : Prop where
  apart : (op.parameters.map keyOfParameter).Pairwise fun k l => (k == l) = false
  placeholders : ∀ n ∈ Path.placeholders op.path, ∃ p ∈ op.parameters,
    p.place = .text "path" ∧ p.name = .text n
  occurring : ∀ p ∈ op.parameters, p.place = .text "path" →
    ∃ n ∈ Path.placeholders op.path, p.name = .text n

theorem Declares.nodup_keys {op : Operation} (declares : Declares op) :
    (op.parameters.map keyOfParameter).Nodup :=
  declares.apart.imp ne_of_beq_false

theorem mem_pathParameterNames {op : Operation} {name : Scalar} :
    name ∈ pathParameterNames op ↔
      ∃ p ∈ op.parameters, p.place = .text "path" ∧ p.name = name := by
  simp [pathParameterNames, Scalar.beq_text_iff, and_assoc]

theorem declared_of_check {op : Operation} {location : String}
    (h : checkPathParameters op location = .ok ()) :
    (∀ n ∈ Path.placeholders op.path, Scalar.text n ∈ pathParameterNames op) ∧
      ∀ name ∈ pathParameterNames op, ∃ n ∈ Path.placeholders op.path, name = .text n := by
  unfold checkPathParameters at h
  dsimp only at h
  split at h
  · cases h
  · next hplaces =>
    split at h
    · cases h
    · next hdeclared =>
      constructor
      · intro n hn
        have hany := List.find?_eq_none.mp hplaces n hn
        simpa [Scalar.beq_text_iff] using hany
      · intro name hname
        have hany := List.find?_eq_none.mp hdeclared name hname
        simpa [Scalar.beq_text_iff] using hany

theorem declares_of_readOperation {scope : Scope} {path method : String} {value shared : Tree}
    {op : Operation} (h : readOperation scope path method value shared = .ok op) : Declares op := by
  obtain ⟨node, merged, start, declared, -, -, hstart, hmerged, hdeclared,
    ⟨bodies, responses, rfl⟩, hcheck⟩ := readOperation_eq_ok h
  obtain ⟨hplaces, hnames⟩ := declared_of_check hcheck
  obtain ⟨keys, hsub, hkeys⟩ := keys_of_bindDeclared hdeclared
  rw [hstart, List.map_nil, List.nil_append] at hkeys
  refine ⟨?_, ?_, ?_⟩
  · rw [hkeys]
    exact (keysApart_mergeParameters hmerged).sublist hsub
  · exact fun n hn => mem_pathParameterNames.mp (hplaces n hn)
  · exact fun p hp hplace => hnames p.name (mem_pathParameterNames.mpr ⟨p, hp, hplace, rfl⟩)

end ContractReader

theorem Contract.declares_of_ofTree {document : Tree} {contract : Contract}
    (h : Contract.ofTree document = .ok contract) :
    ∀ op ∈ contract.operations, ContractReader.Declares op := by
  obtain ⟨seen, hapart⟩ := Contract.apart_of_ofTree h
  intro op hop
  obtain ⟨scope, path, method, value, shared, hread⟩ := hapart.read op hop
  exact ContractReader.declares_of_readOperation hread

end ApiContract
