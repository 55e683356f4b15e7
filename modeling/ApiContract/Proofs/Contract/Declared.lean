import ApiContract.Proofs.Contract.Faults
import ApiContract.Proofs.Contract.Fields
import ApiContract.Proofs.Contract.Parameters

/-! # Declared parameters

An entry of a list of parameters declares a place and a name, once its references are followed.
Merging the shared parameters of a path item with the own ones of an operation writes them
into one table, the shared ones first, so that an own parameter replaces a shared one where
that stands. An own parameter must not have the place and the name of an own one before it.
-/
namespace ApiContract.ContractReader

/-- The place and the name that a parameter declares. -/
structure Keyed (fields : Fields) (key : Scalar × Scalar) : Prop where
  place : (Fields.field? fields "in").getD (.text "") = .scalar key.1
  name : (Fields.field? fields "name").getD (.text "") = .scalar key.2

theorem keyOf_eq_ok {p n : Tree} {key : Scalar × Scalar} :
    keyOf p n = .ok key ↔ p = .scalar key.1 ∧ n = .scalar key.2 := by
  have hscalar : ∀ {t : Tree} {s : Scalar}, t.scalar? = some s ↔ t = .scalar s := by
    intro t s
    cases t <;> simp [Tree.scalar?]
  simp only [keyOf, Outcome.bind_eq_ok, Outcome.need_eq_ok, Outcome.pure_eq_ok, hscalar]
  constructor
  · rintro ⟨p, rfl, n, rfl, rfl⟩
    exact ⟨rfl, rfl⟩
  · rintro ⟨rfl, rfl⟩
    exact ⟨_, rfl, _, rfl, rfl⟩

/-- An entry of a list below a location declares a parameter at its place in the list. -/
structure DeclaresAt (document : Tree) (location : String) (entry : Tree × ℕ)
    (d : (Scalar × Scalar) × Declared) : Prop where
  place : d.2.2 = location ++ "/parameters/" ++ toString entry.2
  followed : ∃ target, deref document entry.1 d.2.2 = .ok target ∧ target.fields? = some d.2.1
  keyed : Keyed d.2.1 d.1

/-- An own parameter of an operation has to say where it is and what it is called. -/
structure DeclaresOwn (document : Tree) (location : String) (entry : Tree × ℕ)
    (d : (Scalar × Scalar) × Declared) : Prop extends DeclaresAt document location entry d where
  hasPlace : Fields.hasField d.2.1 "in" = true
  hasName : Fields.hasField d.2.1 "name" = true

variable {scope : Scope} {document : Tree} {location label : String} {entry : Tree × ℕ}
  {d : (Scalar × Scalar) × Declared}

/-- What an entry of the shared parameters declares. -/
def readShared (scope : Scope) (location : String) (entry : Tree × ℕ) :
    Outcome ((Scalar × Scalar) × Declared) := do
  let place := location ++ "/parameters/" ++ toString entry.2
  let node ← deref scope.document entry.1 place
  let fields ← need (.contract .parameterNotObject place) node.fields?
  let key ← keyOf ((Fields.field? fields "in").getD (.text ""))
    ((Fields.field? fields "name").getD (.text ""))
  pure (key, fields, place)

/-- What an entry of the own parameters declares. -/
def readOwn (scope : Scope) (location : String) (entry : Tree × ℕ) :
    Outcome ((Scalar × Scalar) × Declared) := do
  let place := location ++ "/parameters/" ++ toString entry.2
  let incomplete : Failure := .contract .parameterIncomplete place
  let node ← deref scope.document entry.1 place
  let fields ← need incomplete node.fields?
  let name ← need incomplete (Fields.field? fields "name")
  let named ← need incomplete (Fields.field? fields "in")
  let key ← keyOf named name
  pure (key, fields, place)

theorem readShared_eq_ok_iff :
    readShared scope location entry = .ok d ↔ DeclaresAt scope.document location entry d := by
  simp only [readShared, Outcome.bind_eq_ok, Outcome.need_eq_ok, Outcome.pure_eq_ok, keyOf_eq_ok]
  constructor
  · rintro ⟨target, htarget, fields, hfields, key, ⟨hplace, hname⟩, rfl⟩
    exact ⟨rfl, ⟨target, htarget, hfields⟩, ⟨hplace, hname⟩⟩
  · obtain ⟨key, fields, place⟩ := d
    rintro ⟨rfl, ⟨target, htarget, hfields⟩, ⟨hplace, hname⟩⟩
    exact ⟨target, htarget, fields, hfields, key, ⟨hplace, hname⟩, rfl⟩

theorem readOwn_eq_ok_iff :
    readOwn scope location entry = .ok d ↔ DeclaresOwn scope.document location entry d := by
  simp only [readOwn, Outcome.bind_eq_ok, Outcome.need_eq_ok, Outcome.pure_eq_ok, keyOf_eq_ok]
  constructor
  · rintro ⟨target, htarget, fields, hfields, name, hname, named, hnamed, key, ⟨rfl, rfl⟩, rfl⟩
    refine ⟨⟨rfl, ⟨target, htarget, hfields⟩, ⟨?_, ?_⟩⟩, ?_, ?_⟩
    · rw [hnamed, Option.getD_some]
    · rw [hname, Option.getD_some]
    · rw [Fields.hasField_eq, hnamed, Option.isSome_some]
    · rw [Fields.hasField_eq, hname, Option.isSome_some]
  · obtain ⟨key, fields, place⟩ := d
    rintro ⟨⟨rfl, ⟨target, htarget, hfields⟩, ⟨hplace, hname⟩⟩, hhasPlace, hhasName⟩
    rw [Fields.hasField_eq] at hhasPlace hhasName
    obtain ⟨named, hfoundPlace⟩ := Option.isSome_iff_exists.mp hhasPlace
    obtain ⟨name, hfoundName⟩ := Option.isSome_iff_exists.mp hhasName
    rw [hfoundPlace, Option.getD_some] at hplace
    rw [hfoundName, Option.getD_some] at hname
    exact ⟨target, htarget, fields, hfields, name, hfoundName, named, hfoundPlace, key,
      ⟨hplace, hname⟩, rfl⟩

theorem forall₂_declaresAt_iff {entries : List (Tree × ℕ)} {ds : Declarations} :
    List.Forall₂ (DeclaresAt scope.document location) entries ds ↔
      entries.mapM (readShared scope location) = .ok ds := by
  simp only [Outcome.mapM_eq_ok_iff, readShared_eq_ok_iff]

theorem forall₂_declaresOwn_iff {entries : List (Tree × ℕ)} {ds : Declarations} :
    List.Forall₂ (DeclaresOwn scope.document location) entries ds ↔
      entries.mapM (readOwn scope location) = .ok ds := by
  simp only [Outcome.mapM_eq_ok_iff, readOwn_eq_ok_iff]

theorem unrepeated_readOwn (entry : Tree × ℕ) : (readOwn scope location entry).Unrepeated := by
  refine .bind (unrepeated_deref _ _ _) fun node => .bind (.need rfl _) fun fields => ?_
  refine .bind (.need rfl _) fun name => .bind (.need rfl _) fun named => ?_
  exact .bind (unrepeated_keyOf _ _) fun key => .pure _

/-- The failure over an own parameter that repeats one before it. -/
def repetition (label : String) (d : (Scalar × Scalar) × Declared) : Failure :=
  .telling [.scalar d.1.1, .scalar d.1.2]
    (.contract (.duplicateParameter d.1.1 d.1.2 label) d.2.2)

theorem repetition_of_writable (hplace : d.1.1.isWritable = true)
    (hname : d.1.2.isWritable = true) :
    repetition label d = .contract (.duplicateParameter d.1.1 d.1.2 label) d.2.2 := by
  simp [repetition, Failure.telling, Tree.isWritable, hplace, hname]

theorem repetition_eq_contract {place name : Scalar} {label' location' : String}
    (h : repetition label d = .contract (.duplicateParameter place name label') location') :
    d.1 = (place, name) ∧ label' = label ∧ location' = d.2.2 := by
  unfold repetition Failure.telling at h
  split at h
  · cases h
    exact ⟨rfl, rfl, rfl⟩
  · cases h

/-- The own parameters so far with one more. -/
def OwnState.add (state : OwnState) (d : (Scalar × Scalar) × Declared) : OwnState :=
  { merged := Table.put state.merged d.1 d.2, own := d.1 :: state.own }

def OwnState.accept (label : String) (state : OwnState) (d : (Scalar × Scalar) × Declared) :
    Outcome OwnState :=
  if state.own.any (· == d.1) then .error (repetition label d) else .ok (state.add d)

theorem OwnState.accept_eq_ok_iff {state state' : OwnState} : state.accept label d = .ok state' ↔
    (∀ k ∈ state.own, (k == d.1) = false) ∧ state' = state.add d := by
  unfold OwnState.accept
  cases hagain : state.own.any (· == d.1) with
  | true =>
    obtain ⟨k, hk, hsame⟩ := List.any_eq_true.mp hagain
    rw [if_pos rfl]
    exact ⟨nofun, fun h => absurd hsame (Bool.eq_false_iff.mp (h.1 k hk))⟩
  | false =>
    have hnew : ∀ k ∈ state.own, (k == d.1) = false := by simpa using hagain
    rw [if_neg Bool.false_ne_true, Except.ok.injEq]
    exact ⟨fun h => ⟨hnew, h.symm⟩, fun h => h.2.symm⟩

theorem addShared_eq (merged : Declarations) : addShared scope location merged entry =
    (readShared scope location entry >>= fun d => pure (Table.put merged d.1 d.2)) := by
  simp only [addShared, readShared, bind_assoc, pure_bind]

theorem addOwn_eq (state : OwnState) : addOwn scope location label state entry =
    (readOwn scope location entry >>= state.accept label) := by
  simp only [addOwn, readOwn, bind_assoc, pure_bind]
  refine bind_congr fun node => bind_congr fun fields => ?_
  cases hname : Fields.field? fields "name" with
  | none =>
    rw [Fields.hasField_eq, hname]
    rfl
  | some name =>
    rw [Fields.hasField_eq, hname, Option.isSome_some, if_pos rfl, valueOf, hname]
    rfl

/-- The first declaration whose key repeats that of one before it. -/
structure Repeats (before : Declarations) (d : (Scalar × Scalar) × Declared) : Prop where
  apart : Table.KeysApart before
  again : ∃ e ∈ before, (e.1 == d.1) = true

theorem keysApart_concat {ds : Declarations} : Table.KeysApart (ds ++ [d]) ↔
    Table.KeysApart ds ∧ ∀ e ∈ ds, (e.1 == d.1) = false := by
  simp [Table.KeysApart, Table.keys, List.pairwise_append]

theorem Repeats.not_keysApart {before : Declarations} (h : Repeats before d)
    (after : Declarations) : ¬Table.KeysApart (before ++ d :: after) := by
  intro hapart
  have hsub : (before ++ [d]).Sublist (before ++ d :: after) :=
    (List.Sublist.refl before).append ((List.nil_sublist after).cons_cons d)
  have hfirst : Table.KeysApart (before ++ [d]) := hapart.sublist (hsub.map Prod.fst)
  obtain ⟨e, he, hsame⟩ := h.again
  exact Bool.eq_false_iff.mp ((keysApart_concat.mp hfirst).2 e he) hsame

theorem exists_repeats {ds : Declarations} (h : ¬Table.KeysApart ds) :
    ∃ before d after, ds = before ++ d :: after ∧ Repeats before d := by
  induction ds using List.reverseRecOn with
  | nil => exact absurd List.Pairwise.nil h
  | append_singleton ds d ih =>
    by_cases hds : Table.KeysApart ds
    · refine ⟨ds, d, [], rfl, hds, ?_⟩
      by_contra hnone
      simp only [not_exists, not_and, Bool.not_eq_true] at hnone
      exact h (keysApart_concat.mpr ⟨hds, hnone⟩)
    · obtain ⟨before, e, after, rfl, hrepeats⟩ := ih hds
      exact ⟨before, e, after ++ [d], by simp, hrepeats⟩

/-- Declarations with keys apart are all accepted. -/
theorem foldlM_accept {ds : Declarations} (hds : Table.KeysApart ds) (merged : Declarations) :
    ds.foldlM (OwnState.accept label) { merged } =
      .ok { merged := ds.foldl (fun t e => Table.put t e.1 e.2) merged,
            own := (Table.keys ds).reverse } := by
  induction ds using List.reverseRecOn with
  | nil => rfl
  | append_singleton ds d ih =>
    obtain ⟨hfirst, hlast⟩ := keysApart_concat.mp hds
    rw [List.foldlM_append, ih hfirst]
    have hnew : (Table.keys ds).reverse.any (· == d.1) = false := by
      simpa [Table.keys] using hlast
    simp [OwnState.accept, OwnState.add, hnew, bind, Except.bind, List.foldl_append]

theorem foldlM_accept_of_repeats {before : Declarations} (h : Repeats before d)
    (after merged : Declarations) :
    (before ++ d :: after).foldlM (OwnState.accept label) { merged } =
      .error (repetition label d) := by
  have hagain : (Table.keys before).reverse.any (· == d.1) = true := by
    simpa [Table.keys] using h.again
  rw [List.foldlM_append, foldlM_accept h.apart]
  simp [OwnState.accept, hagain, bind, Except.bind]

theorem keysApart_of_accepted {ds merged : Declarations} {state : OwnState}
    (h : ds.foldlM (OwnState.accept label) { merged } = .ok state) : Table.KeysApart ds := by
  by_contra hrepeated
  obtain ⟨before, d, after, rfl, hrepeats⟩ := exists_repeats hrepeated
  rw [foldlM_accept_of_repeats hrepeats] at h
  cases h

/-- The declarations of the first entries that a value lists, in their order. -/
def Begins (declares : Tree × ℕ → (Scalar × Scalar) × Declared → Prop) (value : Tree)
    (ds : Declarations) : Prop :=
  ∃ nodes, optionalMembers value = .ok nodes ∧
    ∃ entries, entries <+: nodes.zipIdx ∧ List.Forall₂ declares entries ds

/-- The declarations of all entries that a value lists, in their order. -/
def Lists (declares : Tree × ℕ → (Scalar × Scalar) × Declared → Prop) (value : Tree)
    (ds : Declarations) : Prop :=
  ∃ nodes, optionalMembers value = .ok nodes ∧ List.Forall₂ declares nodes.zipIdx ds

variable {itemLocation : String} {shared own : Tree} {S O merged : Declarations}

theorem foldlM_addShared_eq_ok_iff {entries : List (Tree × ℕ)} {start : Declarations} :
    entries.foldlM (addShared scope location) start = .ok merged ↔
      ∃ S, List.Forall₂ (DeclaresAt scope.document location) entries S ∧
        S.foldl (fun t e => Table.put t e.1 e.2) start = merged := by
  have hstep : addShared scope location = fun merged entry =>
      readShared scope location entry >>= fun d => pure (Table.put merged d.1 d.2) :=
    funext fun _ => funext fun _ => addShared_eq _
  rw [hstep]
  constructor
  · intro h
    obtain ⟨S, hS, h⟩ := Outcome.exists_mapM_of_foldlM_bind h
    rw [List.foldlM_pure, Outcome.pure_eq_ok] at h
    exact ⟨S, forall₂_declaresAt_iff.mpr hS, h⟩
  · rintro ⟨S, hS, rfl⟩
    rw [Outcome.foldlM_bind_of_mapM (forall₂_declaresAt_iff.mp hS), List.foldlM_pure]
    rfl

theorem addOwn_eq_bind : addOwn scope location label = fun state entry =>
    readOwn scope location entry >>= state.accept label :=
  funext fun _ => funext fun _ => addOwn_eq _

theorem foldlM_addOwn {entries : List (Tree × ℕ)}
    (h : List.Forall₂ (DeclaresOwn scope.document location) entries O) (state : OwnState) :
    entries.foldlM (addOwn scope location label) state =
      O.foldlM (OwnState.accept label) state := by
  rw [addOwn_eq_bind]
  exact Outcome.foldlM_bind_of_mapM (forall₂_declaresOwn_iff.mp h) state

theorem exists_accepted_of_foldlM_addOwn {entries : List (Tree × ℕ)} {state state' : OwnState}
    (h : entries.foldlM (addOwn scope location label) state = .ok state') :
    ∃ O, List.Forall₂ (DeclaresOwn scope.document location) entries O ∧
      O.foldlM (OwnState.accept label) state = .ok state' := by
  rw [addOwn_eq_bind] at h
  obtain ⟨O, hO, haccepted⟩ := Outcome.exists_mapM_of_foldlM_bind h
  exact ⟨O, forall₂_declaresOwn_iff.mpr hO, haccepted⟩

/-- Merging succeeds when all entries declare something and no own one repeats another, and
it writes the shared declarations first. -/
theorem mergeParameters_eq_ok_iff :
    mergeParameters scope itemLocation location label shared own = .ok merged ↔
      ∃ S O, Lists (DeclaresAt scope.document itemLocation) shared S ∧
        Lists (DeclaresOwn scope.document location) own O ∧ Table.KeysApart O ∧
        merged = Table.ofPairs (S ++ O) := by
  simp only [mergeParameters, foldlM_addShared_eq_ok_iff, Outcome.bind_eq_ok, Outcome.pure_eq_ok]
  constructor
  · rintro ⟨sharedNodes, hshared, _, ⟨S, hS, rfl⟩, ownNodes, hown, state, hstate, rfl⟩
    obtain ⟨O, hO, haccepted⟩ := exists_accepted_of_foldlM_addOwn hstate
    have hapart := keysApart_of_accepted haccepted
    rw [foldlM_accept hapart] at haccepted
    cases haccepted
    exact ⟨S, O, ⟨sharedNodes, hshared, hS⟩, ⟨ownNodes, hown, hO⟩, hapart,
      List.foldl_append.symm⟩
  · rintro ⟨S, O, ⟨sharedNodes, hshared, hS⟩, ⟨ownNodes, hown, hO⟩, hapart, rfl⟩
    have haccepted : ownNodes.zipIdx.foldlM (addOwn scope location label)
        { merged := Table.ofPairs S } = _ := (foldlM_addOwn hO _).trans (foldlM_accept hapart _)
    exact ⟨sharedNodes, hshared, _, ⟨S, hS, rfl⟩, ownNodes, hown, _, haccepted,
      List.foldl_append.symm⟩

/-- Merging fails at the first own declaration that repeats one before it, whatever comes
behind. -/
theorem mergeParameters_of_repeats (hS : Lists (DeclaresAt scope.document itemLocation) shared S)
    (hO : Begins (DeclaresOwn scope.document location) own (O ++ [d])) (h : Repeats O d) :
    mergeParameters scope itemLocation location label shared own =
      .error (repetition label d) := by
  obtain ⟨sharedNodes, hshared, hS⟩ := hS
  obtain ⟨ownNodes, hown, entries, ⟨rest, hrest⟩, hO⟩ := hO
  have hstart : sharedNodes.zipIdx.foldlM (addShared scope itemLocation) [] =
      .ok (Table.ofPairs S) := foldlM_addShared_eq_ok_iff.mpr ⟨S, hS, rfl⟩
  have hfailed : (entries ++ rest).foldlM (addOwn scope location label)
      { merged := Table.ofPairs S } = .error (repetition label d) := by
    rw [List.foldlM_append, foldlM_addOwn hO, foldlM_accept_of_repeats h []]
    rfl
  refine Outcome.bind_eq_error.mpr (.inr ⟨_, hshared, ?_⟩)
  refine Outcome.bind_eq_error.mpr (.inr ⟨_, hstart, ?_⟩)
  refine Outcome.bind_eq_error.mpr (.inr ⟨_, hown, ?_⟩)
  exact Outcome.bind_eq_error.mpr (.inl (hrest ▸ hfailed))

/-- Nothing else in merging finds a repetition. -/
theorem exists_repeats_of_mergeParameters {e : Failure}
    (h : mergeParameters scope itemLocation location label shared own = .error e)
    (he : e.isRepetition = true) :
    ∃ S O d, Lists (DeclaresAt scope.document itemLocation) shared S ∧
      Begins (DeclaresOwn scope.document location) own (O ++ [d]) ∧ Repeats O d ∧
      e = repetition label d := by
  rcases Outcome.bind_eq_error.mp h with h | ⟨sharedNodes, hshared, h⟩
  · exact absurd h ((unrepeated_optionalMembers _).ne_error he)
  rcases Outcome.bind_eq_error.mp h with h | ⟨start, hstart, h⟩
  · have hquiet : (sharedNodes.zipIdx.foldlM (addShared scope itemLocation) []).Unrepeated :=
      .foldlM (fun _ _ _ => unrepeated_addShared scope _ _ _) _
    exact absurd h (hquiet.ne_error he)
  obtain ⟨S, hS, rfl⟩ := foldlM_addShared_eq_ok_iff.mp hstart
  rcases Outcome.bind_eq_error.mp h with h | ⟨ownNodes, hown, h⟩
  · exact absurd h ((unrepeated_optionalMembers _).ne_error he)
  rcases Outcome.bind_eq_error.mp h with h | ⟨state, -, h⟩
  · obtain ⟨before, entry, after, state, hsplit, hbefore, hentry⟩ := Outcome.foldlM_eq_error h
    obtain ⟨O, hO, haccepted⟩ := exists_accepted_of_foldlM_addOwn hbefore
    have hapart := keysApart_of_accepted haccepted
    rw [foldlM_accept hapart] at haccepted
    cases haccepted
    rw [addOwn_eq] at hentry
    rcases Outcome.bind_eq_error.mp hentry with hentry | ⟨d, hd, hentry⟩
    · exact absurd hentry ((unrepeated_readOwn _).ne_error he)
    · unfold OwnState.accept at hentry
      split at hentry
      · next hagain =>
        cases hentry
        refine ⟨S, O, d, ⟨sharedNodes, hshared, hS⟩, ⟨ownNodes, hown, before ++ [entry], ?_, ?_⟩,
          ⟨hapart, by simpa [Table.keys] using hagain⟩, rfl⟩
        · exact ⟨after, by simp [hsplit]⟩
        · exact List.rel_append hO (.cons (readOwn_eq_ok_iff.mp hd) .nil)
      · cases hentry
  · cases h

theorem prefix_of_begins {ds : Declarations}
    (h : Begins (DeclaresOwn scope.document location) own ds)
    (hO : Lists (DeclaresOwn scope.document location) own O) : ds <+: O := by
  obtain ⟨nodes, hnodes, entries, hentries, hds⟩ := h
  obtain ⟨nodes', hnodes', hO⟩ := hO
  cases hnodes.symm.trans hnodes'
  have hfirst := List.forall₂_take entries.length hO
  rw [← List.prefix_iff_eq_take.mp hentries] at hfirst
  have hsame : ds = O.take entries.length := Except.ok.inj
    ((forall₂_declaresOwn_iff.mp hds).symm.trans (forall₂_declaresOwn_iff.mp hfirst))
  exact hsame ▸ List.take_prefix _ _

theorem begins_of_lists {ds rest : Declarations}
    (h : Lists (DeclaresOwn scope.document location) own (ds ++ rest)) :
    Begins (DeclaresOwn scope.document location) own ds := by
  obtain ⟨nodes, hnodes, hall⟩ := h
  have hfirst := List.forall₂_take ds.length hall
  rw [List.take_left] at hfirst
  exact ⟨nodes, hnodes, _, List.take_prefix _ _, hfirst⟩

end ApiContract.ContractReader
