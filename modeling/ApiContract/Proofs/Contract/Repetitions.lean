import ApiContract.Proofs.Contract.Duplicates
import ApiContract.Proofs.Contract.Overriding

/-! # Parameters that a document declares twice

Each operation that a document declares is merged from the shared parameters of its path item
and its own ones, or no contract is returned. Two own parameters of one place and name are
refused, and nothing else is refused as a repetition: an own parameter stands for a shared one,
and a shared parameter for a shared one before it.
-/
namespace ApiContract

namespace Outcome

variable {α σ : Type} {f : σ → α → Outcome σ} {items before after : List α} {start final s : σ}
  {a : α} {e : Failure}

/-- A walk comes to each of its items, and goes on from there. -/
theorem exists_step_of_foldlM (h : items.foldlM f start = .ok final) (ha : a ∈ items) :
    ∃ (s s' : σ) (after : List α), f s a = .ok s' ∧ after.foldlM f s' = .ok final := by
  obtain ⟨before, after, rfl⟩ := List.append_of_mem ha
  rw [List.foldlM_append] at h
  obtain ⟨s, -, h⟩ := bind_eq_ok.mp h
  rw [List.foldlM_cons] at h
  obtain ⟨s', hs', h⟩ := bind_eq_ok.mp h
  exact ⟨s, s', after, hs', h⟩

/-- A walk fails at the first item that it fails at. -/
theorem foldlM_eq_error_of_step (hbefore : before.foldlM f start = .ok s) (ha : f s a = .error e) :
    (before ++ a :: after).foldlM f start = .error e := by
  rw [List.foldlM_append]
  refine bind_eq_error.mpr (.inr ⟨s, hbefore, ?_⟩)
  rw [List.foldlM_cons]
  exact bind_eq_error.mpr (.inl ha)

end Outcome

namespace ContractReader

variable {document : Tree} {scope : Scope} {path key : String} {item paths : Fields}
  {value shared : Tree} {op : Operation} {e : Failure}

/-- An operation that a document declares: under a method, in a path item that may be behind
references. -/
structure HasOperation (document : Tree) (path : String) (item : Fields) (key : String)
    (value : Tree) : Prop where
  isItem : ∃ paths entries node target, pathTree document = .ok paths ∧
    paths.fields? = some entries ∧ (.text path, node) ∈ entries ∧
    deref document node (Pointer.ofTokens ["paths", path]) = .ok target ∧
    target.fields? = some item
  isEntry : (.text key, value) ∈ item
  isMethod : lowered key ∈ httpMethods

theorem mem_operations_addEntry {state state' : ItemState} {entry : Scalar × Tree}
    (h : addEntry scope path shared state entry = .ok state') (hop : op ∈ state.operations) :
    op ∈ state'.operations := by
  rcases addEntry_declared h with ⟨-, rfl⟩ | ⟨method, added, -, -, -, rfl⟩
  · exact hop
  · exact List.mem_append_left _ hop

theorem exists_read_of_addEntries {state final : ItemState}
    (h : item.foldlM (addEntry scope path shared) state = .ok final)
    (hentry : (.text key, value) ∈ item) (hmethod : lowered key ∈ httpMethods) :
    ∃ op ∈ final.operations, readOperation scope path (lowered key) value shared = .ok op := by
  obtain ⟨s, s', after, hstep, hafter⟩ := Outcome.exists_step_of_foldlM h hentry
  obtain ⟨_, ⟨⟩, hstep⟩ := Outcome.bind_eq_ok.mp hstep
  dsimp only at hstep
  split at hstep
  · split at hstep
    · cases hstep
    · obtain ⟨op, hop, hstep⟩ := Outcome.bind_eq_ok.mp hstep
      cases hstep
      refine ⟨op, ?_, hop⟩
      exact Outcome.foldlM_keeps (P := fun state : ItemState => op ∈ state.operations)
        (fun _ hs _ _ _ h => mem_operations_addEntry h hs) (by simp) hafter
  · next hnot => exact absurd hmethod hnot

theorem mem_operations_addItem {state state' : ContractState} {entry : Scalar × Tree}
    (h : addItem scope state entry = .ok state')
    (hop : op ∈ state.items.flatMap PathItem.operations) :
    op ∈ state'.items.flatMap PathItem.operations := by
  obtain ⟨path, -, h⟩ := Outcome.bind_eq_ok.mp h
  obtain ⟨node, -, h⟩ := Outcome.bind_eq_ok.mp h
  obtain ⟨fields, -, h⟩ := Outcome.bind_eq_ok.mp h
  obtain ⟨final, -, h⟩ := Outcome.bind_eq_ok.mp h
  cases h
  rw [List.flatMap_append]
  exact List.mem_append_left _ hop

/-- Each operation that the document of a contract declares was read, and the contract has it. -/
theorem exists_read_of_ofTree {contract : Contract} (h : Contract.ofTree document = .ok contract)
    (hhas : HasOperation document path item key value) :
    ∃ scope : Scope, scope.document = document ∧ ∃ op ∈ contract.operations,
      readOperation scope path (lowered key) value (valueOf item "parameters") = .ok op := by
  obtain ⟨⟨pathsTree, entries, node, target, htree, hentries, hmem, htarget, hitem⟩, hentry,
    hmethod⟩ := hhas
  obtain ⟨root, hroot, hread⟩ := Contract.ofTree_eq_ok h
  obtain ⟨schemas, schemaScope, components, paths, final, -, -, -, -, hpaths, hfinal, hitems⟩ :=
    readRoot_eq_ok hread
  have hsame : pathsTree = mapOf root "paths" := by
    rw [pathTree, hroot] at htree
    cases htree
    rfl
  rw [hsame, hpaths] at hentries
  cases hentries
  refine ⟨{ document, root, schemas := schemaScope }, rfl, ?_⟩
  obtain ⟨s, s', after, hstep, hafter⟩ := Outcome.exists_step_of_foldlM hfinal hmem
  obtain ⟨_, ⟨⟩, hstep⟩ := Outcome.bind_eq_ok.mp hstep
  obtain ⟨target', htarget', hstep⟩ := Outcome.bind_eq_ok.mp hstep
  obtain rfl : target' = target := Except.ok.inj (htarget'.symm.trans htarget)
  obtain ⟨fields, hfields, hstep⟩ := Outcome.bind_eq_ok.mp hstep
  rw [Outcome.need_eq_ok, hitem] at hfields
  cases hfields
  obtain ⟨itemState, hitemState, hstep⟩ := Outcome.bind_eq_ok.mp hstep
  cases hstep
  obtain ⟨op, hop, hread⟩ := exists_read_of_addEntries hitemState hentry hmethod
  refine ⟨op, ?_, hread⟩
  rw [Contract.operations, hitems]
  exact Outcome.foldlM_keeps
    (P := fun state : ContractState => op ∈ state.items.flatMap PathItem.operations)
    (fun _ hs _ _ _ h => mem_operations_addItem h hs) (by simp [hop]) hafter

/-- A value lists two entries that declare one place and one name. -/
def Doubles (declares : Tree × ℕ → (Scalar × Scalar) × Declared → Prop) (value : Tree) : Prop :=
  ∃ nodes a b d d', optionalMembers value = .ok nodes ∧ [a, b].Sublist nodes.zipIdx ∧
    declares a d ∧ declares b d' ∧ (d.1 == d'.1) = true

/-- What an entry declares is read from it, so that the declarations are in the order of entries. -/
theorem not_keysApart_of_doubles {location : String} {own : Tree} {O : Declarations}
    (h : Doubles (DeclaresOwn document location) own)
    (hO : Lists (DeclaresOwn document location) own O) : ¬Table.KeysApart O := by
  obtain ⟨nodes, a, b, d, d', hnodes, hsub, ha, hb, hsame⟩ := h
  obtain ⟨nodes', hnodes', hall⟩ := hO
  obtain rfl : nodes' = nodes := Except.ok.inj (hnodes'.symm.trans hnodes)
  let scope : Scope := { document, root := [], schemas := { start := "", components := [] } }
  have hread : ∀ {entry : Tree × ℕ} {d : (Scalar × Scalar) × Declared},
      DeclaresOwn document location entry d → readOwn scope location entry = .ok d :=
    fun hd => readOwn_eq_ok_iff.mpr hd
  have hmap : O.map Except.ok = nodes'.zipIdx.map (readOwn scope location) :=
    Outcome.map_of_mapM (fun _ _ hd => hd.symm) (forall₂_declaresOwn_iff.mp hall)
  have hpair := hsub.map (readOwn scope location)
  rw [← hmap, List.map_cons, List.map_singleton, hread ha, hread hb] at hpair
  obtain ⟨pair, hpair, hmapped⟩ := List.sublist_map_iff.mp hpair
  have hinjective : Function.Injective (Except.ok : (Scalar × Scalar) × Declared → Outcome _) :=
    fun _ _ => Except.ok.inj
  obtain rfl : [d, d'] = pair := List.map_injective_iff.mpr hinjective hmapped
  intro hapart
  have hpairApart : Table.KeysApart [d, d'] := hapart.sublist (hpair.map Prod.fst)
  have hdiffer := (List.pairwise_cons.mp hpairApart).1 d'.1 (by simp)
  rw [hsame] at hdiffer
  cases hdiffer

/-- Lists of declarations are merged just if no own one repeats another, whatever shared ones
they override or the shared ones repeat. -/
theorem succeeds_mergeParameters_iff {itemLocation location label : String} {own : Tree}
    {S O : Declarations} (hS : Lists (DeclaresAt scope.document itemLocation) shared S)
    (hO : Lists (DeclaresOwn scope.document location) own O) :
    Outcome.Succeeds (mergeParameters scope itemLocation location label shared own) ↔
      Table.KeysApart O := by
  constructor
  · rintro ⟨merged, h⟩
    obtain ⟨S', O', -, hO', hapart, -⟩ := mergeParameters_eq_ok_iff.mp h
    obtain ⟨nodes, hnodes, hO⟩ := hO
    obtain ⟨nodes', hnodes', hO'⟩ := hO'
    obtain rfl : nodes' = nodes := Except.ok.inj (hnodes'.symm.trans hnodes)
    obtain rfl : O' = O := Except.ok.inj
      ((forall₂_declaresOwn_iff.mp hO').symm.trans (forall₂_declaresOwn_iff.mp hO))
    exact hapart
  · intro hapart
    exact ⟨_, mergeParameters_eq_ok_iff.mpr ⟨S, O, hS, hO, hapart, rfl⟩⟩

/-- What is read of a document before its path items is accepted. -/
structure Opens (document : Tree) (scope : Scope) (paths : Fields) : Prop where
  isDocument : scope.document = document
  isRoot : document.fields? = some scope.root
  isSupported : isSupported scope.root = .ok true
  hasPaths : ∃ node, Fields.field? scope.root "paths" = some node ∧ node.fields?.isSome = true
  isPaths : (mapOf scope.root "paths").fields? = some paths
  hasSchemas : ∃ schemas entries, schemaTree document = .ok schemas ∧
    scopeOf scope.root schemas = .ok scope.schemas ∧ schemas.fields? = some entries ∧
    Outcome.Succeeds (entries.mapM (readComponent scope.schemas))
  hasInfo : ∃ info, (mapOf scope.root "info").fields? = some info ∧
    Outcome.Succeeds (textOr info "title").written ∧
    Outcome.Succeeds (textOr info "version").written

theorem Opens.ofTree_eq_error (h : Opens document scope paths)
    (hpaths : paths.foldlM (addItem scope) {} = .error e) :
    Contract.ofTree document = .error e := by
  obtain ⟨document, root, schemaScope⟩ := scope
  obtain ⟨rfl, hroot, hsupported, ⟨node, hnode, hmap⟩, hfields,
    ⟨schemas, entries, hschemas, hscope, hentries, ⟨components, hcomponents⟩⟩,
    ⟨info, hinfo, ⟨title, htitle⟩, ⟨version, hversion⟩⟩⟩ := h
  have hread : readRoot document root = .error e := by
    refine Outcome.bind_eq_error.mpr (.inr ⟨schemas, hschemas, ?_⟩)
    refine Outcome.bind_eq_error.mpr (.inr ⟨schemaScope, hscope, ?_⟩)
    refine Outcome.bind_eq_error.mpr (.inr ⟨info, Outcome.need_eq_ok.mpr hinfo, ?_⟩)
    refine Outcome.bind_eq_error.mpr (.inr ⟨title, htitle, ?_⟩)
    refine Outcome.bind_eq_error.mpr (.inr ⟨version, hversion, ?_⟩)
    refine Outcome.bind_eq_error.mpr (.inr ⟨entries, Outcome.need_eq_ok.mpr hentries, ?_⟩)
    refine Outcome.bind_eq_error.mpr (.inr ⟨components, hcomponents, ?_⟩)
    refine Outcome.bind_eq_error.mpr (.inr ⟨paths, Outcome.need_eq_ok.mpr hfields, ?_⟩)
    exact Outcome.bind_eq_error.mpr (.inl hpaths)
  refine Outcome.bind_eq_error.mpr (.inr ⟨root, Outcome.need_eq_ok.mpr hroot, ?_⟩)
  refine Outcome.bind_eq_error.mpr (.inr ⟨true, hsupported, ?_⟩)
  simpa [hnode, hmap] using hread

/-- The walk over the path items comes to an entry for an operation that takes requests of its
own: all that is before it is accepted. -/
structure Reaches (scope : Scope) (paths : Fields) (path : String) (item : Fields) (key : String)
    (value : Tree) : Prop where
  isReached : ∃ before node after state target first rest itemState,
    paths = before ++ (.text path, node) :: after ∧
      before.foldlM (addItem scope) {} = .ok state ∧
      deref scope.document node (Pointer.ofTokens ["paths", path]) = .ok target ∧
      target.fields? = some item ∧ item = first ++ (.text key, value) :: rest ∧
      first.foldlM (addEntry scope path (valueOf item "parameters")) { seen := state.seen } =
        .ok itemState ∧
      signOf (path, key) ∉ Table.keys itemState.seen
  isMethod : lowered key ∈ httpMethods

theorem Reaches.addItems_eq_error (h : Reaches scope paths path item key value)
    (hread : readOperation scope path (lowered key) value (valueOf item "parameters") = .error e) :
    paths.foldlM (addItem scope) {} = .error e := by
  obtain ⟨⟨before, node, after, state, target, first, rest, itemState, rfl, hbefore, htarget,
    hitem, hsplit, hfirst, hnew⟩, hmethod⟩ := h
  have hentry : addEntry scope path (valueOf item "parameters") itemState (.text key, value) =
      .error e := by
    refine Outcome.bind_eq_error.mpr (.inr ⟨key, rfl, ?_⟩)
    have hnone : Table.get? itemState.seen (lowered key, Path.shape path) = none :=
      Table.get?_eq_none_iff.mpr hnew
    rw [lowered] at hmethod hnone hread
    simp only [hmethod, if_true, hnone]
    exact Outcome.bind_eq_error.mpr (.inl hread)
  apply Outcome.foldlM_eq_error_of_step hbefore
  refine Outcome.bind_eq_error.mpr (.inr ⟨path, rfl, ?_⟩)
  refine Outcome.bind_eq_error.mpr (.inr ⟨target, htarget, ?_⟩)
  refine Outcome.bind_eq_error.mpr (.inr ⟨item, Outcome.need_eq_ok.mpr hitem, ?_⟩)
  refine Outcome.bind_eq_error.mpr (.inl ?_)
  generalize valueOf item "parameters" = shared at hfirst hentry ⊢
  rw [hsplit]
  exact Outcome.foldlM_eq_error_of_step hfirst hentry

section

variable {place name : Scalar} {label location : String}

theorem exists_of_addEntry_eq_error {state : ItemState} {entry : Scalar × Tree}
    (h : addEntry scope path shared state entry =
      .error (.contract (.duplicateParameter place name label) location)) :
    ∃ key value, entry = (.text key, value) ∧ lowered key ∈ httpMethods ∧
      readOperation scope path (lowered key) value shared =
        .error (.contract (.duplicateParameter place name label) location) := by
  rcases Outcome.bind_eq_error.mp h with h | ⟨key, hkey, h⟩
  · cases (Outcome.need_eq_error.mp h).2
  obtain ⟨entryKey, value⟩ := entry
  obtain rfl : entryKey = .text key := Scalar.text?_eq_some.mp (Outcome.need_eq_ok.mp hkey)
  dsimp only at h
  split at h
  · next hmethod =>
    split at h
    · cases h
    · rcases Outcome.bind_eq_error.mp h with h | ⟨op, -, h⟩
      · exact ⟨key, value, rfl, hmethod, h⟩
      · cases h
  · cases h

/-- A repetition among parameters is found in an operation that the document declares. -/
theorem exists_of_ofTree_eq_error
    (h : Contract.ofTree document =
      .error (.contract (.duplicateParameter place name label) location)) :
    ∃ scope path item key value, scope.document = document ∧
      HasOperation document path item key value ∧
      readOperation scope path (lowered key) value (valueOf item "parameters") =
        .error (.contract (.duplicateParameter place name label) location) := by
  obtain ⟨root, hroot, h⟩ := Contract.ofTree_eq_error h rfl
  obtain ⟨schemaScope, paths, hpaths, h⟩ := readRoot_eq_error h rfl
  obtain ⟨before, ⟨pathKey, node⟩, after, state, rfl, -, h⟩ := Outcome.foldlM_eq_error h
  have htree : pathTree document = .ok (mapOf root "paths") := by
    rw [pathTree, Outcome.need_eq_ok.mpr hroot]
    rfl
  rcases Outcome.bind_eq_error.mp h with h | ⟨path, hpath, h⟩
  · cases (Outcome.need_eq_error.mp h).2
  obtain rfl : pathKey = .text path := Scalar.text?_eq_some.mp (Outcome.need_eq_ok.mp hpath)
  rcases Outcome.bind_eq_error.mp h with h | ⟨target, htarget, h⟩
  · exact absurd h ((unrepeated_deref _ _ _).ne_error rfl)
  rcases Outcome.bind_eq_error.mp h with h | ⟨item, hitem, h⟩
  · cases (Outcome.need_eq_error.mp h).2
  rcases Outcome.bind_eq_error.mp h with h | ⟨final, -, h⟩
  · obtain ⟨first, entry, rest, itemState, hsplit, -, h⟩ := Outcome.foldlM_eq_error h
    obtain ⟨key, value, rfl, hmethod, h⟩ := exists_of_addEntry_eq_error h
    refine ⟨_, path, item, key, value, rfl, ⟨?_, by simp [hsplit], hmethod⟩, h⟩
    exact ⟨_, _, node, target, htree, hpaths, by simp, htarget, Outcome.need_eq_ok.mp hitem⟩
  · cases h

end

end ContractReader

namespace Contract

open ContractReader

/-- Each operation that is declared is merged from its own parameters and the shared ones. -/
theorem exists_overrides_of_ofTree {document : Tree} {contract : Contract} {path key : String}
    {item : Fields} {value : Tree} (h : Contract.ofTree document = .ok contract)
    (hhas : HasOperation document path item key value) :
    ∃ scope op node S O merged, scope.document = document ∧ op ∈ contract.operations ∧
      declarationOf op = (path, lowered key) ∧ value.fields? = some node ∧
      ListsShared scope path (valueOf item "parameters") S ∧
      ListsOwn scope path (lowered key) node O ∧ Table.KeysApart O ∧ Overrides S O merged ∧
      Binds scope node (Pointer.ofTokens ["paths", path, lowered key]) merged op := by
  obtain ⟨scope, hdocument, op, hop, hread⟩ := exists_read_of_ofTree h hhas
  obtain ⟨hmethod, hpath⟩ := method_path_of_readOperation hread
  obtain ⟨node, S, O, merged, hbegun, hS, hO, hapart, hoverrides, hbinds⟩ :=
    overrides_of_readOperation hread
  refine ⟨scope, op, node, S, O, merged, hdocument, hop, ?_, hbegun.object, hS, hO, hapart,
    hoverrides, hbinds⟩
  rw [declarationOf, hmethod, hpath]

/-- A document with an operation that doubles an own parameter has no contract. -/
theorem exists_error_of_doubles {document : Tree} {path key : String} {item node : Fields}
    {value : Tree} (hhas : HasOperation document path item key value)
    (hnode : value.fields? = some node)
    (hdoubles : Doubles (DeclaresOwn document (Pointer.ofTokens ["paths", path, lowered key]))
      (valueOf node "parameters")) :
    ∃ e, Contract.ofTree document = .error e := by
  cases h : Contract.ofTree document with
  | error e => exact ⟨e, rfl⟩
  | ok contract =>
    obtain ⟨scope, op, node', S, O, merged, rfl, -, -, hnode', -, hO, hapart, -⟩ :=
      exists_overrides_of_ofTree h hhas
    obtain rfl : node' = node := Option.some.inj (hnode'.symm.trans hnode)
    exact absurd hapart (not_keysApart_of_doubles hdoubles hO)

/-- The first repetition that the walk over the path items comes to is what is reported. -/
theorem ofTree_of_repeats {document : Tree} {scope : Scope} {paths : Fields} {path key : String}
    {item node : Fields} {value : Tree} {S O : Declarations} {d : (Scalar × Scalar) × Declared}
    (hopens : Opens document scope paths) (hreaches : Reaches scope paths path item key value)
    (hbegun : Begun value node) (hS : ListsShared scope path (valueOf item "parameters") S)
    (hO : BeginsOwn scope path (lowered key) node (O ++ [d])) (hrepeats : Repeats O d) :
    Contract.ofTree document = .error (repetitionIn path (lowered key) d) ∧
      (d.1.1.isWritable = true → d.1.2.isWritable = true →
        Contract.ofTree document = .error (.contract
          (.duplicateParameter d.1.1 d.1.2 ((lowered key).toUpper ++ " " ++ path)) d.2.2)) := by
  have hrefused := hopens.ofTree_eq_error
    (hreaches.addItems_eq_error (readOperation_of_repeats hbegun hS hO hrepeats))
  refine ⟨hrefused, fun hplace hname => ?_⟩
  rw [hrefused, repetitionIn, repetition_of_writable hplace hname]

/-- What is reported as declared twice repeats an own parameter of an operation. -/
theorem exists_repeats_of_ofTree {document : Tree} {place name : Scalar} {label location : String}
    (h : Contract.ofTree document =
      .error (.contract (.duplicateParameter place name label) location)) :
    ∃ scope path item key value node S O d, scope.document = document ∧
      HasOperation document path item key value ∧ value.fields? = some node ∧
      ListsShared scope path (valueOf item "parameters") S ∧
      BeginsOwn scope path (lowered key) node (O ++ [d]) ∧ Repeats O d ∧
      d.1 = (place, name) ∧ label = (lowered key).toUpper ++ " " ++ path ∧
      location = d.2.2 := by
  obtain ⟨scope, path, item, key, value, hdocument, hhas, hrefused⟩ := exists_of_ofTree_eq_error h
  obtain ⟨node, S, O, d, hbegun, hS, hO, hrepeats, he⟩ := repeats_of_readOperation hrefused rfl
  obtain ⟨hkey, hlabel, hlocation⟩ := repetition_eq_contract he.symm
  exact ⟨scope, path, item, key, value, node, S, O, d, hdocument, hhas, hbegun.object, hS, hO,
    hrepeats, hkey, hlabel, hlocation⟩

/-- Each operation that the document of a contract declares has the shared parameters of its path
item and its own ones, each place and name once, with the declaration that came last. A document
in which an operation lists one place and name twice has no contract, and it is refused for the
first such parameter if what is read before is accepted. No other repetition is refused: the lists
are merged whatever shared parameters the own ones override or the shared ones repeat, and what is
reported as declared twice repeats an own parameter of an operation. -/
theorem repetitions_of_ofTree (document : Tree) :
    (∀ contract path item key value, Contract.ofTree document = .ok contract →
      HasOperation document path item key value →
      ∃ scope op node S O merged, scope.document = document ∧ op ∈ contract.operations ∧
        declarationOf op = (path, lowered key) ∧ value.fields? = some node ∧
        ListsShared scope path (valueOf item "parameters") S ∧
        ListsOwn scope path (lowered key) node O ∧ Table.KeysApart O ∧ Overrides S O merged ∧
        Binds scope node (Pointer.ofTokens ["paths", path, lowered key]) merged op) ∧
    (∀ path item key value node, HasOperation document path item key value →
      value.fields? = some node →
      Doubles (DeclaresOwn document (Pointer.ofTokens ["paths", path, lowered key]))
        (valueOf node "parameters") →
      ∃ e, Contract.ofTree document = .error e) ∧
    (∀ scope paths path item key value node S O d, Opens document scope paths →
      Reaches scope paths path item key value → Begun value node →
      ListsShared scope path (valueOf item "parameters") S →
      BeginsOwn scope path (lowered key) node (O ++ [d]) → Repeats O d →
      Contract.ofTree document = .error (repetitionIn path (lowered key) d) ∧
        (d.1.1.isWritable = true → d.1.2.isWritable = true →
          Contract.ofTree document = .error (.contract
            (.duplicateParameter d.1.1 d.1.2 ((lowered key).toUpper ++ " " ++ path)) d.2.2))) ∧
    (∀ scope path method node shared S O label, ListsShared scope path shared S →
      ListsOwn scope path method node O →
      (Outcome.Succeeds (mergeParameters scope (Pointer.ofTokens ["paths", path])
        (Pointer.ofTokens ["paths", path, method]) label shared (valueOf node "parameters")) ↔
          Table.KeysApart O)) ∧
    ∀ place name label location, Contract.ofTree document =
        .error (.contract (.duplicateParameter place name label) location) →
      ∃ scope path item key value node S O d, scope.document = document ∧
        HasOperation document path item key value ∧ value.fields? = some node ∧
        ListsShared scope path (valueOf item "parameters") S ∧
        BeginsOwn scope path (lowered key) node (O ++ [d]) ∧ Repeats O d ∧
        d.1 = (place, name) ∧ label = (lowered key).toUpper ++ " " ++ path ∧
        location = d.2.2 := by
  refine ⟨fun _ _ _ _ _ => exists_overrides_of_ofTree, fun _ _ _ _ _ => exists_error_of_doubles,
    ?_, fun _ _ _ _ _ _ _ _ hS hO => succeeds_mergeParameters_iff hS hO,
    fun _ _ _ _ => exists_repeats_of_ofTree⟩
  intro scope paths path item key value node S O d hopens hreaches hbegun hS hO hrepeats
  exact ofTree_of_repeats hopens hreaches hbegun hS hO hrepeats

/-- A parameter in the query with a description to tell it by. -/
def queryFields (description : String) : Fields := [
  (.text "name", .text "q"), (.text "in", .text "query"), (.text "description", .text description)]

def queryParameter (description : String) : Tree := .map (queryFields description)

def queryDeclared (location description : String) (index : ℕ) : (Scalar × Scalar) × Declared :=
  ((.text "query", .text "q"), queryFields description,
    location ++ "/parameters/" ++ toString index)

theorem declaresOwn_query (document : Tree) (location description : String) (index : ℕ) :
    DeclaresOwn document location (queryParameter description, index)
      (queryDeclared location description index) where
  place := rfl
  followed := ⟨_, rfl, rfl⟩
  keyed := ⟨rfl, rfl⟩
  hasPlace := rfl
  hasName := rfl

def searchItem (shared own : List Tree) : Fields := [
  (.text "parameters", .list shared), (.text "get", .map [(.text "parameters", .list own)])]

def searchPaths (shared own : List Tree) : Fields := [
  (.text "/items", .map (searchItem shared own))]

/-- A document with one operation, which has shared and own parameters. -/
def searchRoot (shared own : List Tree) : Fields := [
  (.text "openapi", .text "3.0.0"), (.text "paths", .map (searchPaths shared own))]

theorem hasOperation_search (shared own : List Tree) :
    HasOperation (.map (searchRoot shared own)) "/items" (searchItem shared own) "get"
      (.map [(.text "parameters", .list own)]) where
  isItem := ⟨_, _, _, _, rfl, rfl, List.mem_cons_self, rfl, rfl⟩
  isEntry := by simp [searchItem]
  isMethod := by decide +kernel

/-- The descriptions of the parameters of each operation. -/
def describedParameters (contract : Contract) : List (List (Option String)) :=
  contract.operations.map fun op => op.parameters.map fun p => p.description.text?

/-- An own parameter stands for a shared one, and a second own one is refused. -/
theorem repetitions_of_ofTree_search :
    (∃ contract S O merged,
      Contract.ofTree (.map (searchRoot [queryParameter "shared"] [queryParameter "own"])) =
        .ok contract ∧
      describedParameters contract = [[some "own"]] ∧ Table.KeysApart O ∧
      Overrides S O merged) ∧
    ∃ d, Contract.ofTree
        (.map (searchRoot [] [queryParameter "first", queryParameter "second"])) =
          .error (.contract (.duplicateParameter (.text "query") (.text "q") "GET /items")
            "#/paths/~1items/get/parameters/1") ∧
      d.1 = (.text "query", .text "q") ∧ ∃ O : Declarations, Repeats O d := by
  constructor
  · obtain ⟨contract, hcontract, hdescribed⟩ := Outcome.exists_of_map_toOption
      (o := Contract.ofTree (.map (searchRoot [queryParameter "shared"] [queryParameter "own"])))
      (f := describedParameters) (b := [[some "own"]]) (by decide +kernel)
    obtain ⟨scope, op, node, S, O, merged, -, -, -, -, -, -, hapart, hoverrides, -⟩ :=
      (repetitions_of_ofTree _).1 contract _ _ _ _ hcontract (hasOperation_search _ _)
    exact ⟨contract, S, O, merged, hcontract, hdescribed, hapart, hoverrides⟩
  · let root := searchRoot [] [queryParameter "first", queryParameter "second"]
    let place := Pointer.ofTokens ["paths", "/items", "get"]
    let scope : Scope := { document := .map root, root,
                           schemas := { start := componentStart root, components := [] } }
    have hsupported : isSupported root = .ok true := by
      obtain ⟨supported, h, htrue⟩ := Outcome.exists_of_map_toOption (o := isSupported root)
        (f := id) (b := true) (by decide +kernel)
      exact h.trans (congrArg Except.ok htrue)
    have hopens : Opens (.map root) scope
        (searchPaths [] [queryParameter "first", queryParameter "second"]) :=
      { isDocument := rfl
        isRoot := rfl
        isSupported := hsupported
        hasPaths := ⟨_, rfl, rfl⟩
        isPaths := rfl
        hasSchemas := ⟨_, _, rfl, rfl, rfl, ⟨_, rfl⟩⟩
        hasInfo := ⟨_, rfl, ⟨_, rfl⟩, ⟨_, rfl⟩⟩ }
    have hreaches : Reaches scope (searchPaths [] [queryParameter "first", queryParameter "second"])
        "/items" (searchItem [] [queryParameter "first", queryParameter "second"]) "get"
        (.map [(.text "parameters", .list [queryParameter "first", queryParameter "second"])]) :=
      { isReached := ⟨[], _, [], _, _, [(.text "parameters", .list [])], [], _, rfl, rfl, rfl, rfl,
          rfl, rfl, by simp [Table.keys]⟩
        isMethod := by decide +kernel }
    have hbegins : BeginsOwn scope "/items" "get"
        [(.text "parameters", .list [queryParameter "first", queryParameter "second"])]
        ([queryDeclared place "first" 0] ++ [queryDeclared place "second" 1]) :=
      ⟨_, rfl, _, List.prefix_rfl, .cons (declaresOwn_query _ _ _ _)
        (.cons (declaresOwn_query _ _ _ _) .nil)⟩
    have hrepeats : Repeats [queryDeclared place "first" 0] (queryDeclared place "second" 1) :=
      ⟨List.pairwise_singleton _ _, _, List.mem_cons_self, rfl⟩
    have hrefused := ((repetitions_of_ofTree (.map root)).2.2.1 scope _ _ _ _ _ _ [] _ _ hopens
      hreaches ⟨rfl, ⟨_, rfl⟩, ⟨_, rfl⟩⟩ ⟨_, rfl, .nil⟩ hbegins hrepeats).2 rfl rfl
    have hlabel : (lowered "get").toUpper ++ " " ++ "/items" = "GET /items" := by decide +kernel
    have hplace : (queryDeclared place "second" 1).2.2 = "#/paths/~1items/get/parameters/1" := by
      decide +kernel
    rw [hlabel, hplace] at hrefused
    exact ⟨_, hrefused, rfl, _, hrepeats⟩

/-- Of two shared parameters with one place and one name the last is taken without a word. -/
theorem shared_repetition_taken :
    let document : Tree := .map (searchRoot [queryParameter "first", queryParameter "last"] [])
    ∃ item value contract, HasOperation document "/items" item "get" value ∧
      Doubles (DeclaresAt document (Pointer.ofTokens ["paths", "/items"]))
        (valueOf item "parameters") ∧
      Contract.ofTree document = .ok contract ∧
      describedParameters contract = [[some "last"]] := by
  intro document
  obtain ⟨contract, hcontract, hdescribed⟩ := Outcome.exists_of_map_toOption
    (o := Contract.ofTree document) (f := describedParameters) (b := [[some "last"]])
    (by decide +kernel)
  refine ⟨_, _, contract, hasOperation_search _ _, ?_, hcontract, hdescribed⟩
  exact ⟨_, _, _, _, _, rfl, List.Sublist.refl _, (declaresOwn_query _ _ "first" 0).toDeclaresAt,
    (declaresOwn_query _ _ "last" 1).toDeclaresAt, rfl⟩

end Contract

end ApiContract
