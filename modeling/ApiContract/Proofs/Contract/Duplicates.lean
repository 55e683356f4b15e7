import ApiContract.Proofs.Contract.Faults
import ApiContract.Proofs.Contract.Labels
import ApiContract.Proofs.Path.Overlap

/-! # Operations that take the same requests

Two operations clash when they have one method and their templates overlap. A document in
which two declared operations clash is refused, and the operations of a contract are those
that its document declares.
-/
namespace ApiContract.ContractReader

open ApiContract.Path

def lowered (method : String) : String := String.ofList (Text.lower method.toList)

/-- A path and a method as they are written in a document. -/
abbrev Declaration := String × String

/-- Declared operations that take the same requests, whatever the case of their methods. -/
def Clash (a b : Declaration) : Prop := lowered a.2 = lowered b.2 ∧ Overlap a.1 b.1

/-- The method that an entry of a path item declares an operation for. -/
def declaredMethod? (entry : Scalar × Tree) : Option String :=
  entry.1.text?.filter fun key => lowered key ∈ httpMethods

def declaredIn (path : String) (item : Fields) : List Declaration :=
  item.filterMap fun entry => (declaredMethod? entry).map fun method => (path, method)

/-- The operations of a path item, which may be behind references. -/
def declaredAt (document : Tree) (entry : Scalar × Tree) : List Declaration :=
  match entry.1.text? with
  | none => []
  | some path =>
    match deref document entry.2 (Pointer.ofTokens ["paths", path]) with
    | .ok node => declaredIn path (node.fields?.getD [])
    | .error _ => []

/-- The operations that a document declares, in its order. -/
def declaredOperations (document : Tree) : List Declaration :=
  match pathTree document with
  | .ok paths => (paths.fields?.getD []).flatMap (declaredAt document)
  | .error _ => []

/-- What a declaration is remembered by. -/
def signOf (d : Declaration) : String × String := (lowered d.2, shape d.1)

def declarationOf (op : Operation) : Declaration := (op.path, op.method)

def normalized (d : Declaration) : Declaration := (d.1, lowered d.2)

theorem clash_iff {a b : Declaration} : Clash a b ↔ signOf a = signOf b := by
  rw [Clash, signOf, signOf, Prod.mk.injEq, shape_eq_iff]

theorem lowered_httpMethods : ∀ m ∈ httpMethods, lowered m = m := by decide +kernel

/-- The declarations so far: each is remembered under its sign, which no two share, and a
remembered path is that of one of them. -/
structure Recorded (seen : SeenPaths) (declared : List Declaration) : Prop where
  known : ∀ d ∈ declared, signOf d ∈ Table.keys seen
  found : ∀ sign path, Table.get? seen sign = some path →
    ∃ d ∈ declared, d.1 = path ∧ signOf d = sign
  apart : (declared.map signOf).Nodup

theorem recorded_nil : Recorded [] [] := ⟨by simp, by simp [Table.get?], by simp⟩

theorem Recorded.add {seen : SeenPaths} {declared : List Declaration} {d : Declaration}
    (h : Recorded seen declared) (hnew : signOf d ∉ Table.keys seen) :
    Recorded (Table.put seen (signOf d) d.1) (declared ++ [d]) where
  known := by
    intro e he
    rcases List.mem_append.mp he with he | he
    · exact Table.mem_keys_put.mpr (Or.inr (h.known e he))
    · rw [List.mem_singleton.mp he]
      exact Table.mem_keys_put.mpr (Or.inl rfl)
  found := by
    intro sign path hget
    by_cases hs : sign = signOf d
    · subst hs
      rw [Table.get?_put_self] at hget
      exact ⟨d, by simp, Option.some.inj hget, rfl⟩
    · rw [Table.get?_put_ne _ _ hs] at hget
      obtain ⟨e, he, hpath, hsign⟩ := h.found sign path hget
      exact ⟨e, List.mem_append_left _ he, hpath, hsign⟩
  apart := by
    rw [List.map_append, List.map_singleton]
    refine h.apart.append (List.nodup_singleton _) ?_
    intro sign hold hsign
    obtain ⟨e, he, rfl⟩ := List.mem_map.mp hold
    rw [List.mem_singleton] at hsign
    exact hnew (hsign ▸ h.known e he)

theorem Recorded.pairwise_not_clash {seen : SeenPaths} {declared : List Declaration}
    (h : Recorded seen declared) : declared.Pairwise fun a b => ¬Clash a b := by
  have hapart := List.pairwise_map.mp h.apart
  exact hapart.imp fun hne hclash => hne (clash_iff.mp hclash)

variable {scope : Scope} {path : String} {shared : Tree} {declared : List Declaration}

theorem declaredMethod?_eq_some {entry : Scalar × Tree} {key : String}
    (hkey : entry.1.text? = some key) (h : lowered key ∈ httpMethods) :
    declaredMethod? entry = some key := by
  simp [declaredMethod?, hkey, h]

theorem declaredMethod?_eq_none {entry : Scalar × Tree} {key : String}
    (hkey : entry.1.text? = some key) (h : lowered key ∉ httpMethods) :
    declaredMethod? entry = none := by
  simp [declaredMethod?, hkey, h]

/-- An entry that declares no operation is passed over; an operation must have a new sign. -/
theorem addEntry_declared {state state' : ItemState} {entry : Scalar × Tree}
    (h : addEntry scope path shared state entry = .ok state') :
    (declaredMethod? entry = none ∧ state' = state) ∨
      ∃ method op, declaredMethod? entry = some method ∧
        signOf (path, method) ∉ Table.keys state.seen ∧
        declarationOf op = normalized (path, method) ∧
        state' = { seen := Table.put state.seen (signOf (path, method)) path,
                   operations := state.operations ++ [op] } := by
  obtain ⟨key, hkey, h⟩ := Outcome.bind_eq_ok.mp h
  rw [Outcome.need_eq_ok] at hkey
  dsimp only at h
  split at h
  · next hm =>
    split at h
    · cases h
    · next hnone =>
      obtain ⟨op, hop, h⟩ := Outcome.bind_eq_ok.mp h
      obtain ⟨hmethod, hpath⟩ := method_path_of_readOperation hop
      cases h
      refine Or.inr ⟨key, op, ?_, Table.get?_eq_none_iff.mp hnone, ?_, rfl⟩
      · exact declaredMethod?_eq_some hkey hm
      · rw [declarationOf, hmethod, hpath, normalized, lowered]
  · next hm =>
    cases h
    exact Or.inl ⟨declaredMethod?_eq_none hkey hm, rfl⟩

/-- A duplicate path is found at an entry whose sign is remembered. -/
theorem addEntry_eq_error {state : ItemState} {entry : Scalar × Tree} {e : Failure}
    (h : addEntry scope path shared state entry = .error e) (he : e.isDuplicatePath = true) :
    ∃ method earlier, declaredMethod? entry = some method ∧
      Table.get? state.seen (signOf (path, method)) = some earlier ∧
      e = .contract (.duplicatePath (lowered method).toUpper path earlier)
        (Pointer.ofTokens ["paths", path, lowered method]) := by
  rcases Outcome.bind_eq_error.mp h with h | ⟨key, hkey, h⟩
  · obtain ⟨-, rfl⟩ := Outcome.need_eq_error.mp h
    cases he
  rw [Outcome.need_eq_ok] at hkey
  dsimp only at h
  split at h
  · next hm =>
    split at h
    · next earlier hsome =>
      cases h
      exact ⟨key, earlier, declaredMethod?_eq_some hkey hm, hsome, rfl⟩
    · rcases Outcome.bind_eq_error.mp h with h | ⟨op, -, h⟩
      · have hnot := unduplicated_readOperation scope _ _ _ _ e h
        rw [hnot] at he
        cases he
      · cases h
  · cases h

theorem declaredIn_cons (entry : Scalar × Tree) (rest : Fields) :
    declaredIn path (entry :: rest) =
      ((declaredMethod? entry).map fun method => (path, method)).toList ++
        declaredIn path rest := by
  cases h : declaredMethod? entry <;> simp [declaredIn, h]

theorem recorded_addEntries {item : Fields} {state state' : ItemState}
    (h : item.foldlM (addEntry scope path shared) state = .ok state')
    (hs : Recorded state.seen declared) :
    Recorded state'.seen (declared ++ declaredIn path item) ∧
      state'.operations.map declarationOf =
        state.operations.map declarationOf ++ (declaredIn path item).map normalized := by
  induction item generalizing state declared with
  | nil =>
    cases h
    simpa [declaredIn] using hs
  | cons entry rest ih =>
    rw [List.foldlM_cons] at h
    obtain ⟨next, hnext, hrest⟩ := Outcome.bind_eq_ok.mp h
    rw [declaredIn_cons]
    rcases addEntry_declared hnext with ⟨hnone, rfl⟩ | ⟨method, op, hsome, hnew, hop, rfl⟩
    · simpa [hnone] using ih hrest hs
    · obtain ⟨hrec, hops⟩ := ih hrest (hs.add hnew)
      refine ⟨by simpa [hsome] using hrec, ?_⟩
      rw [hops]
      simp [hsome, hop]

theorem declaredAt_eq {document : Tree} {entry : Scalar × Tree} {node : Tree} {item : Fields}
    (hpath : entry.1.text? = some path)
    (hnode : deref document entry.2 (Pointer.ofTokens ["paths", path]) = .ok node)
    (hitem : node.fields? = some item) : declaredAt document entry = declaredIn path item := by
  simp [declaredAt, hpath, hnode, hitem]

theorem recorded_addItem {state state' : ContractState} {entry : Scalar × Tree}
    (h : addItem scope state entry = .ok state') (hs : Recorded state.seen declared) :
    Recorded state'.seen (declared ++ declaredAt scope.document entry) ∧
      (state'.items.flatMap PathItem.operations).map declarationOf =
        (state.items.flatMap PathItem.operations).map declarationOf ++
          (declaredAt scope.document entry).map normalized := by
  obtain ⟨path, hpath, h⟩ := Outcome.bind_eq_ok.mp h
  obtain ⟨node, hnode, h⟩ := Outcome.bind_eq_ok.mp h
  obtain ⟨item, hitem, h⟩ := Outcome.bind_eq_ok.mp h
  obtain ⟨final, hfinal, h⟩ := Outcome.bind_eq_ok.mp h
  cases h
  rw [Outcome.need_eq_ok] at hpath hitem
  rw [declaredAt_eq hpath hnode hitem]
  obtain ⟨hrec, hops⟩ := recorded_addEntries hfinal hs
  refine ⟨hrec, ?_⟩
  simpa using hops

theorem recorded_addItems {entries : Fields} {state state' : ContractState}
    (h : entries.foldlM (addItem scope) state = .ok state') (hs : Recorded state.seen declared) :
    Recorded state'.seen (declared ++ entries.flatMap (declaredAt scope.document)) ∧
      (state'.items.flatMap PathItem.operations).map declarationOf =
        (state.items.flatMap PathItem.operations).map declarationOf ++
          (entries.flatMap (declaredAt scope.document)).map normalized := by
  induction entries generalizing state declared with
  | nil =>
    cases h
    simpa using hs
  | cons entry rest ih =>
    rw [List.foldlM_cons] at h
    obtain ⟨next, hnext, h⟩ := Outcome.bind_eq_ok.mp h
    obtain ⟨hrec, hops⟩ := recorded_addItem hnext hs
    obtain ⟨hrec', hops'⟩ := ih h hrec
    refine ⟨by simpa using hrec', ?_⟩
    rw [hops', hops]
    simp

/-- Two declarations that clash, in the order in which they are declared. -/
structure Doubled (declared : List Declaration) (method path earlier : String) : Prop where
  pair : ∃ first second, [first, second].Sublist declared ∧ Clash first second ∧
    first.1 = earlier ∧ second.1 = path ∧ (lowered second.2).toUpper = method

theorem Doubled.append_left {method path earlier : String}
    (h : Doubled declared method path earlier)
    (before after : List Declaration) :
    Doubled (before ++ declared ++ after) method path earlier := by
  obtain ⟨first, second, hsub, hclash⟩ := h.pair
  refine ⟨first, second, hsub.trans ?_, hclash⟩
  exact (List.sublist_append_right _ _).trans (List.sublist_append_left _ _)

/-- An item at which a duplicate path is found declares an operation that clashes with one
before it. -/
theorem doubled_of_addItem {state : ContractState} {entry : Scalar × Tree}
    {method path earlier location : String}
    (h : addItem scope state entry =
      .error (.contract (.duplicatePath method path earlier) location))
    (hs : Recorded state.seen declared) :
    Doubled (declared ++ declaredAt scope.document entry) method path earlier := by
  rcases Outcome.bind_eq_error.mp h with h | ⟨template, hpath, h⟩
  · cases (Outcome.need_eq_error.mp h).2
  rcases Outcome.bind_eq_error.mp h with h | ⟨node, hnode, h⟩
  · exact absurd h ((unrepeated_deref _ _ _).ne_error rfl)
  rcases Outcome.bind_eq_error.mp h with h | ⟨item, hitem, h⟩
  · cases (Outcome.need_eq_error.mp h).2
  rcases Outcome.bind_eq_error.mp h with h | ⟨final, -, h⟩
  · rw [Outcome.need_eq_ok] at hpath hitem
    obtain ⟨before, e, after, between, rfl, hbefore, he⟩ := Outcome.foldlM_eq_error h
    obtain ⟨key, old, hkey, hold, hfailure⟩ := addEntry_eq_error he rfl
    cases hfailure
    obtain ⟨hrec, -⟩ := recorded_addEntries hbefore hs
    obtain ⟨first, hfirst, hearlier, hsign⟩ := hrec.found _ _ hold
    rw [declaredAt_eq hpath hnode hitem]
    refine ⟨first, (path, key), ?_, clash_iff.mpr hsign, hearlier, rfl, rfl⟩
    have hsplit : declaredIn path (before ++ e :: after) =
        declaredIn path before ++ (path, key) :: declaredIn path after := by
      simp [declaredIn, hkey]
    rw [hsplit, ← List.append_assoc]
    exact (List.singleton_sublist.mpr hfirst).append
      ((List.nil_sublist (declaredIn path after)).cons_cons _)
  · cases h

theorem doubled_of_addItems {entries : Fields} {method path earlier location : String}
    (h : entries.foldlM (addItem scope) {} =
      .error (.contract (.duplicatePath method path earlier) location)) :
    Doubled (entries.flatMap (declaredAt scope.document)) method path earlier := by
  obtain ⟨before, entry, after, state, rfl, hbefore, hentry⟩ := Outcome.foldlM_eq_error h
  obtain ⟨hrec, -⟩ := recorded_addItems hbefore recorded_nil
  have hdoubled := (doubled_of_addItem hentry hrec).append_left []
    (after.flatMap (declaredAt scope.document))
  simpa using hdoubled

theorem declaredOperations_eq {document : Tree} {root paths : Fields}
    (hroot : document.fields? = some root) (hpaths : (mapOf root "paths").fields? = some paths) :
    declaredOperations document = paths.flatMap (declaredAt document) := by
  have htree : pathTree document = .ok (mapOf root "paths") := by
    rw [pathTree, Outcome.need_eq_ok.mpr hroot]
    rfl
  simp [declaredOperations, htree, hpaths]

theorem unrepeated_schemaTree (document : Tree) : (schemaTree document).Unrepeated := by
  refine .bind (.need rfl _) fun root => ?_
  split
  · exact .pure _
  · exact .bind (.need rfl _) fun components => .pure _

/-- A repetition is found in the walk over the path items. -/
theorem readRoot_eq_error {document : Tree} {root : Fields} {e : Failure}
    (h : readRoot document root = .error e) (he : e.isRepetition = true) :
    ∃ schemaScope paths, (mapOf root "paths").fields? = some paths ∧
      paths.foldlM (addItem { document, root, schemas := schemaScope }) {} = .error e := by
  have hnot : ∀ {α : Type} {o : Outcome α}, o.Unrepeated → o ≠ .error e :=
    fun ho => ho.ne_error he
  rcases Outcome.bind_eq_error.mp h with h | ⟨schemas, -, h⟩
  · exact absurd h (hnot (unrepeated_schemaTree document))
  rcases Outcome.bind_eq_error.mp h with h | ⟨schemaScope, -, h⟩
  · exact absurd h (hnot (.bind (.need rfl _) fun _ => .bind (.mapM fun _ _ => .need rfl _)
      fun _ => .pure _))
  rcases Outcome.bind_eq_error.mp h with h | ⟨info, -, h⟩
  · exact absurd h (hnot (.need rfl _))
  rcases Outcome.bind_eq_error.mp h with h | ⟨title, -, h⟩
  · exact absurd h (hnot (Tree.unrepeated_written _))
  rcases Outcome.bind_eq_error.mp h with h | ⟨version, -, h⟩
  · exact absurd h (hnot (Tree.unrepeated_written _))
  rcases Outcome.bind_eq_error.mp h with h | ⟨entries, -, h⟩
  · exact absurd h (hnot (.need rfl _))
  rcases Outcome.bind_eq_error.mp h with h | ⟨components, -, h⟩
  · refine absurd h (hnot (.mapM fun entry _ => .bind (.need rfl _) fun name => ?_))
    exact .bind (schemaScope.unrepeated_read _ _) fun _ => .pure _
  rcases Outcome.bind_eq_error.mp h with h | ⟨paths, hpaths, h⟩
  · exact absurd h (hnot (.need rfl _))
  rcases Outcome.bind_eq_error.mp h with h | ⟨final, -, h⟩
  · exact ⟨schemaScope, paths, Outcome.need_eq_ok.mp hpaths, h⟩
  · cases h

end ContractReader

open ContractReader ApiContract.Path

theorem Contract.ofTree_eq_error {document : Tree} {e : Failure}
    (h : Contract.ofTree document = .error e) (he : e.isRepetition = true) :
    ∃ root, document.fields? = some root ∧ readRoot document root = .error e := by
  rcases Outcome.bind_eq_error.mp h with h | ⟨root, hroot, h⟩
  · obtain ⟨-, rfl⟩ := Outcome.need_eq_error.mp h
    cases he
  rcases Outcome.bind_eq_error.mp h with h | ⟨supported, -, h⟩
  · have hversion : (isSupported root).Unrepeated :=
      .bind (Tree.unrepeated_written _) fun _ => .bind (Tree.unrepeated_written _)
        fun _ => .pure _
    exact absurd h (hversion.ne_error he)
  refine ⟨root, Outcome.need_eq_ok.mp hroot, ?_⟩
  cases supported with
  | false =>
    cases h
    cases he
  | true =>
    simp only [Bool.not_true, Bool.false_eq_true, if_false] at h
    split at h
    · exact h
    · cases h
      cases he

/-- The operations of a contract are those that its document declares, with different signs. -/
theorem Contract.recorded_of_ofTree {document : Tree} {contract : Contract}
    (h : Contract.ofTree document = .ok contract) :
    (∃ seen, Recorded seen (declaredOperations document)) ∧
      contract.operations.map declarationOf = (declaredOperations document).map normalized := by
  obtain ⟨root, hroot, h⟩ := Contract.ofTree_eq_ok h
  obtain ⟨schemas, schemaScope, entries, paths, final, -, -, -, -, hpaths, hfinal, hitems⟩ :=
    readRoot_eq_ok h
  obtain ⟨hrecorded, hoperations⟩ := recorded_addItems hfinal recorded_nil
  rw [declaredOperations_eq hroot hpaths, Contract.operations, hitems]
  exact ⟨⟨_, hrecorded⟩, hoperations⟩

theorem Contract.doubled_of_ofTree {document : Tree} {method path earlier location : String}
    (h : Contract.ofTree document =
      .error (.contract (.duplicatePath method path earlier) location)) :
    Doubled (declaredOperations document) method path earlier := by
  obtain ⟨root, hroot, h⟩ := Contract.ofTree_eq_error h rfl
  obtain ⟨schemaScope, paths, hpaths, h⟩ := readRoot_eq_error h rfl
  rw [declaredOperations_eq hroot hpaths]
  exact doubled_of_addItems h

/-- The methods of a contract are in lower case, so that lowering them again does nothing. -/
theorem Contract.pairwise_not_clash {document : Tree} {contract : Contract}
    (h : Contract.ofTree document = .ok contract) :
    (contract.operations.map declarationOf).Pairwise fun a b => ¬Clash a b := by
  obtain ⟨seen, hapart⟩ := Contract.apart_of_ofTree h
  have hshapes : contract.operations.Pairwise fun a b => shapeOf a ≠ shapeOf b :=
    List.pairwise_map.mp hapart.nodup
  refine List.pairwise_map.mpr (hshapes.imp_of_mem ?_)
  intro a b ha hb hne hclash
  refine hne ?_
  have hsign := clash_iff.mp hclash
  simp only [signOf, declarationOf, lowered_httpMethods _ (hapart.methods a ha),
    lowered_httpMethods _ (hapart.methods b hb)] at hsign
  exact hsign

/-- A contract has no two operations of one method whose templates overlap, and it has all
that its document declares. A document is refused for a duplicate path only if it declares
two such operations. Overlapping is told by shapes, which neither the names in braces nor
slashes at the end change. -/
theorem Contract.no_overlap (document : Tree) :
    (∀ contract, Contract.ofTree document = .ok contract →
      (contract.operations.map declarationOf).Pairwise (fun a b => ¬Clash a b) ∧
      (declaredOperations document).Pairwise (fun a b => ¬Clash a b) ∧
      contract.operations.map declarationOf = (declaredOperations document).map normalized) ∧
    (∀ method path earlier location, Contract.ofTree document =
        .error (.contract (.duplicatePath method path earlier) location) →
      ∃ first second, [first, second].Sublist (declaredOperations document) ∧
        Clash first second ∧ first.1 = earlier ∧ second.1 = path ∧
        (lowered second.2).toUpper = method) ∧
    (∀ s t : String, shape s = shape t ↔ Overlap s t) ∧
    (∀ s : String, shape (shape s) = shape s) ∧
    (∀ s t : String, Renamed s.toList t.toList → shape s = shape t) ∧
    (∀ (s : String) (n : ℕ), shape (s ++ String.ofList (slashes n)) = shape s) := by
  refine ⟨?_, ?_, fun s t => shape_eq_iff, ?_, ?_, ?_⟩
  · intro contract h
    obtain ⟨⟨seen, hrecorded⟩, hoperations⟩ := Contract.recorded_of_ofTree h
    exact ⟨Contract.pairwise_not_clash h, hrecorded.pairwise_not_clash, hoperations⟩
  · intro method path earlier location h
    exact (Contract.doubled_of_ofTree h).pair
  · intro s
    simp only [shape, String.toList_ofList, shapeChars_shapeChars]
  · intro s t h
    rw [shape, shape, h.shapeChars_eq]
  · intro s n
    rw [shape, shape, String.toList_append, String.toList_ofList, shapeChars_append_slashes]

/-- Pets at two paths; at the second a method has another case, a name and a slash differ. -/
def petPaths (method : String) : Tree :=
  let parameters (name : String) : Tree := .list [.map [
    (.text "name", .text name), (.text "in", .text "path"), (.text "required", .bool true),
    (.text "schema", .map [(.text "type", .text "string")])]]
  .map [
    (.text "openapi", .text "3.0.0"),
    (.text "paths", .map [
      (.text "/pets/\x7bid\x7d", .map [
        (.text "parameters", parameters "id"), (.text "get", .map [])]),
      (.text "/pets/\x7bname\x7d/", .map [
        (.text "parameters", parameters "name"), (.text method, .map [])])])]

theorem Contract.no_overlap_pets :
    (∃ contract, Contract.ofTree (petPaths "Delete") = .ok contract ∧
      contract.operations.map declarationOf =
        [("/pets/\x7bid\x7d", "get"), ("/pets/\x7bname\x7d/", "delete")] ∧
      (contract.operations.map declarationOf).Pairwise fun a b => ¬Clash a b) ∧
    ∃ location, Contract.ofTree (petPaths "Get") = .error (.contract
        (.duplicatePath "GET" "/pets/\x7bname\x7d/" "/pets/\x7bid\x7d") location) ∧
      ∃ first second, [first, second].Sublist (declaredOperations (petPaths "Get")) ∧
        Clash first second := by
  constructor
  · obtain ⟨contract, h, hoperations⟩ := Outcome.exists_of_map_toOption
      (o := Contract.ofTree (petPaths "Delete"))
      (f := fun contract => contract.operations.map declarationOf)
      (b := [("/pets/\x7bid\x7d", "get"), ("/pets/\x7bname\x7d/", "delete")])
      (by decide +kernel)
    exact ⟨contract, h, hoperations, ((Contract.no_overlap _).1 contract h).1⟩
  · have hrefused : (Outcome.failure? (Contract.ofTree (petPaths "Get"))).bind Failure.duplicate? =
        some ("GET", "/pets/\x7bname\x7d/", "/pets/\x7bid\x7d") := by decide +kernel
    obtain ⟨failure, h, hduplicate⟩ := Option.bind_eq_some_iff.mp hrefused
    obtain ⟨location, rfl⟩ := Failure.duplicate?_eq_some hduplicate
    rw [Outcome.failure?_eq_some] at h
    obtain ⟨first, second, hsub, hclash, -⟩ := (Contract.no_overlap _).2.1 _ _ _ _ h
    exact ⟨location, h, first, second, hsub, hclash⟩

end ApiContract
