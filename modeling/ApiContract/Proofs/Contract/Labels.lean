import Mathlib.Data.List.Basic
import ApiContract.Contract.Reader
import ApiContract.Proofs.Outcome
import ApiContract.Proofs.Table

/-! # Labels of operations

A contract that was read has no two operations with one label. Reading refuses a method
and a template shape that came before, so that method and path tell operations apart,
and the label of an HTTP method and a path gives both back.
-/
namespace ApiContract

theorem toUpper_injOn_httpMethods :
    ∀ m ∈ httpMethods, ∀ n ∈ httpMethods, m.toUpper = n.toUpper → m = n := by
  decide +kernel

theorem no_blank_in_httpMethods : ∀ m ∈ httpMethods, ' ' ∉ m.toUpper.toList := by
  decide +kernel

theorem eq_of_append_cons_eq {xs ys as bs : List Char} {c : Char} (hx : c ∉ xs) (hy : c ∉ ys)
    (h : xs ++ c :: as = ys ++ c :: bs) : xs = ys ∧ as = bs := by
  induction xs generalizing ys with
  | nil =>
    cases ys with
    | nil => exact ⟨rfl, (List.cons.inj h).2⟩
    | cons y ys => exact absurd (List.cons.inj h).1 (List.ne_of_not_mem_cons hy)
  | cons x xs ih =>
    cases ys with
    | nil => exact absurd (List.cons.inj h).1.symm (List.ne_of_not_mem_cons hx)
    | cons y ys =>
      obtain ⟨rfl, hrest⟩ := List.cons.inj h
      obtain ⟨rfl, rfl⟩ :=
        ih (List.not_mem_of_not_mem_cons hx) (List.not_mem_of_not_mem_cons hy) hrest
      exact ⟨rfl, rfl⟩

/-- No HTTP method has a blank, so that a label can be cut at its first one. -/
theorem Operation.label_inj {a b : Operation} (ha : a.method ∈ httpMethods)
    (hb : b.method ∈ httpMethods) (h : a.label = b.label) :
    a.method = b.method ∧ a.path = b.path := by
  have hchars : a.method.toUpper.toList ++ ' ' :: a.path.toList =
      b.method.toUpper.toList ++ ' ' :: b.path.toList := by
    have h' := congrArg String.toList h
    simpa [label, String.toList_append, List.append_assoc] using h'
  obtain ⟨hm, hp⟩ := eq_of_append_cons_eq (no_blank_in_httpMethods _ ha)
    (no_blank_in_httpMethods _ hb) hchars
  exact ⟨toUpper_injOn_httpMethods _ ha _ hb (String.toList_inj.mp hm), String.toList_inj.mp hp⟩

namespace ContractReader

/-- A declaration in the body becomes a body, any other a parameter of its place and name. -/
theorem bindDeclared_eq_ok {scope : Scope} {node : Fields} {op op' : Operation}
    {entry : (Scalar × Scalar) × Declared} (h : bindDeclared scope node op entry = .ok op') :
    (∃ body, op' = { op with bodies := op.bodies ++ [body] }) ∨
      ∃ p, (p.place, p.name) = entry.1 ∧ op' = { op with parameters := op.parameters ++ [p] } := by
  unfold bindDeclared at h
  dsimp only at h
  split at h
  · obtain ⟨schema, -, h⟩ := Outcome.bind_eq_ok.mp h
    obtain ⟨types, -, h⟩ := Outcome.bind_eq_ok.mp h
    cases h
    exact Or.inl ⟨_, rfl⟩
  · obtain ⟨schema, -, h⟩ := Outcome.bind_eq_ok.mp h
    cases h
    exact Or.inr ⟨_, rfl, rfl⟩

theorem addRequestBody_eq_ok {scope : Scope} {node : Fields} {location : String}
    {op op' : Operation} (h : addRequestBody scope node location op = .ok op') :
    ∃ bodies, op' = { op with bodies } := by
  unfold addRequestBody at h
  split at h
  · cases h
    exact ⟨op.bodies, rfl⟩
  · obtain ⟨body, -, h⟩ := Outcome.bind_eq_ok.mp h
    cases h
    exact ⟨_, rfl⟩

theorem addResponses_eq_ok {scope : Scope} {node : Fields} {location : String}
    {op op' : Operation} (h : addResponses scope node location op = .ok op') :
    ∃ responses, op' = { op with responses } := by
  obtain ⟨entries, -, h⟩ := Outcome.bind_eq_ok.mp h
  obtain ⟨responses, -, h⟩ := Outcome.bind_eq_ok.mp h
  cases h
  exact ⟨_, rfl⟩

/-- The stages of reading an operation. The last checks its parameters against its path. -/
theorem readOperation_eq_ok {scope : Scope} {path method : String} {value shared : Tree}
    {op : Operation} (h : readOperation scope path method value shared = .ok op) :
    ∃ node merged start declared, start.method = method ∧ start.path = path ∧
      start.parameters = [] ∧
      mergeParameters scope (Pointer.ofTokens ["paths", path])
        (Pointer.ofTokens ["paths", path, method]) start.label shared
        (valueOf node "parameters") = .ok merged ∧
      merged.foldlM (bindDeclared scope node) start = .ok declared ∧
      (∃ bodies responses, op = { declared with bodies, responses }) ∧
      checkPathParameters op (Pointer.ofTokens ["paths", path, method]) = .ok () := by
  obtain ⟨node, -, h⟩ := Outcome.bind_eq_ok.mp h
  obtain ⟨tags, -, h⟩ := Outcome.bind_eq_ok.mp h
  obtain ⟨extensions, -, h⟩ := Outcome.bind_eq_ok.mp h
  obtain ⟨merged, hmerged, h⟩ := Outcome.bind_eq_ok.mp h
  obtain ⟨declared, hdeclared, h⟩ := Outcome.bind_eq_ok.mp h
  obtain ⟨withBody, hbody, h⟩ := Outcome.bind_eq_ok.mp h
  obtain ⟨complete, hcomplete, h⟩ := Outcome.bind_eq_ok.mp h
  obtain ⟨⟨⟩, hcheck, h⟩ := Outcome.bind_eq_ok.mp h
  cases h
  obtain ⟨bodies, rfl⟩ := addRequestBody_eq_ok hbody
  obtain ⟨responses, rfl⟩ := addResponses_eq_ok hcomplete
  exact ⟨node, merged, _, declared, rfl, rfl, rfl, hmerged, hdeclared, ⟨bodies, responses, rfl⟩,
    hcheck⟩

theorem method_path_of_readOperation {scope : Scope} {path method : String}
    {value shared : Tree} {op : Operation}
    (h : readOperation scope path method value shared = .ok op) :
    op.method = method ∧ op.path = path := by
  obtain ⟨node, merged, start, declared, hm, hp, -, -, hdeclared, ⟨bodies, responses, rfl⟩, -⟩ :=
    readOperation_eq_ok h
  have hbound : declared.method = method ∧ declared.path = path := by
    refine Outcome.foldlM_keeps (P := fun o : Operation => o.method = method ∧ o.path = path)
      ?_ ⟨hm, hp⟩ hdeclared
    intro o ho entry _ o' ho'
    rcases bindDeclared_eq_ok ho' with ⟨body, rfl⟩ | ⟨p, -, rfl⟩
    · exact ho
    · exact ho
  exact hbound

def shapeOf (op : Operation) : String × String := (op.method, Path.shape op.path)

/-- What comes of the reading of an operation. -/
def Read (op : Operation) : Prop :=
  ∃ scope path method value shared, readOperation scope path method value shared = .ok op

/-- Operations read so far: each has an HTTP method and a shape that is remembered, and no
two have the same. -/
structure Apart (seen : SeenPaths) (ops : List Operation) : Prop where
  read : ∀ op ∈ ops, Read op
  methods : ∀ op ∈ ops, op.method ∈ httpMethods
  seen : ∀ op ∈ ops, shapeOf op ∈ Table.keys seen
  nodup : (ops.map shapeOf).Nodup

theorem Apart.add {seen : SeenPaths} {ops : List Operation} (h : Apart seen ops)
    {op : Operation} {path : String} (hop : Read op) (hm : op.method ∈ httpMethods)
    (hnew : shapeOf op ∉ Table.keys seen) :
    Apart (Table.put seen (shapeOf op) path) (ops ++ [op]) where
  read := List.forall_mem_append.mpr ⟨h.read, by simpa using hop⟩
  methods := by
    intro o ho
    rcases List.mem_append.mp ho with ho | ho
    · exact h.methods o ho
    · rwa [List.mem_singleton.mp ho]
  seen := by
    intro o ho
    rcases List.mem_append.mp ho with ho | ho
    · exact Table.mem_keys_put.mpr (Or.inr (h.seen o ho))
    · rw [List.mem_singleton.mp ho]
      exact Table.mem_keys_put.mpr (Or.inl rfl)
  nodup := by
    rw [List.map_append]
    refine h.nodup.append (List.nodup_singleton _) ?_
    intro shape hold hshape
    obtain ⟨o, ho, rfl⟩ := List.mem_map.mp hold
    rw [List.map_singleton, List.mem_singleton] at hshape
    exact hnew (hshape ▸ h.seen o ho)

/-- An entry of a path item is passed over, or it is an operation of a new shape. -/
theorem addEntry_eq_ok {scope : Scope} {path : String} {shared : Tree} {state state' : ItemState}
    {entry : Scalar × Tree} (h : addEntry scope path shared state entry = .ok state') :
    state' = state ∨ ∃ op, Read op ∧ op.method ∈ httpMethods ∧
      shapeOf op ∉ Table.keys state.seen ∧
      state' = { seen := Table.put state.seen (shapeOf op) path,
                 operations := state.operations ++ [op] } := by
  obtain ⟨key, -, h⟩ := Outcome.bind_eq_ok.mp h
  dsimp only at h
  split at h
  · next hm =>
    split at h
    · cases h
    · next hnone =>
      obtain ⟨op, hop, h⟩ := Outcome.bind_eq_ok.mp h
      obtain ⟨hmethod, hpath⟩ := method_path_of_readOperation hop
      cases h
      have hshape : shapeOf op = (String.ofList (Text.lower key.toList), Path.shape path) := by
        rw [shapeOf, hmethod, hpath]
      refine Or.inr ⟨op, ⟨_, _, _, _, _, hop⟩, hmethod ▸ hm, ?_, by rw [hshape]⟩
      rw [hshape]
      exact Table.get?_eq_none_iff.mp hnone
  · cases h
    exact Or.inl rfl

/-- The operations of the items before stand in front of those of this item. -/
theorem Apart.addItem {scope : Scope} {state state' : ContractState} {entry : Scalar × Tree}
    (hs : Apart state.seen (state.items.flatMap PathItem.operations))
    (h : ContractReader.addItem scope state entry = .ok state') :
    Apart state'.seen (state'.items.flatMap PathItem.operations) := by
  obtain ⟨path, -, h⟩ := Outcome.bind_eq_ok.mp h
  obtain ⟨node, -, h⟩ := Outcome.bind_eq_ok.mp h
  obtain ⟨fields, -, h⟩ := Outcome.bind_eq_ok.mp h
  obtain ⟨final, hfinal, h⟩ := Outcome.bind_eq_ok.mp h
  cases h
  simp only [List.flatMap_append, List.flatMap_singleton]
  refine Outcome.foldlM_keeps
    (P := fun item : ItemState =>
      Apart item.seen (state.items.flatMap PathItem.operations ++ item.operations))
    ?_ (by simpa using hs) hfinal
  intro item hitem entry _ item' hitem'
  rcases addEntry_eq_ok hitem' with rfl | ⟨op, hop, hm, hnew, rfl⟩
  · exact hitem
  · rw [← List.append_assoc]
    exact hitem.add hop hm hnew

/-- The stages of reading a document: the components, the names of which are the scope of
references, and then the path items. -/
theorem readRoot_eq_ok {document : Tree} {root : Fields} {contract : Contract}
    (h : readRoot document root = .ok contract) :
    ∃ schemas schemaScope entries paths final, schemaTree document = .ok schemas ∧
      scopeOf root schemas = .ok schemaScope ∧ schemas.fields? = some entries ∧
      entries.mapM (readComponent schemaScope) = .ok contract.schemas ∧
      (mapOf root "paths").fields? = some paths ∧
      paths.foldlM (addItem { document, root, schemas := schemaScope }) {} = .ok final ∧
      contract.items = final.items := by
  obtain ⟨schemas, hschemas, h⟩ := Outcome.bind_eq_ok.mp h
  obtain ⟨schemaScope, hscope, h⟩ := Outcome.bind_eq_ok.mp h
  obtain ⟨info, -, h⟩ := Outcome.bind_eq_ok.mp h
  obtain ⟨title, -, h⟩ := Outcome.bind_eq_ok.mp h
  obtain ⟨version, -, h⟩ := Outcome.bind_eq_ok.mp h
  obtain ⟨entries, hentries, h⟩ := Outcome.bind_eq_ok.mp h
  obtain ⟨components, hcomponents, h⟩ := Outcome.bind_eq_ok.mp h
  obtain ⟨paths, hpaths, h⟩ := Outcome.bind_eq_ok.mp h
  obtain ⟨final, hfinal, h⟩ := Outcome.bind_eq_ok.mp h
  cases h
  rw [Outcome.need_eq_ok] at hentries hpaths
  exact ⟨schemas, schemaScope, entries, paths, final, hschemas, hscope, hentries, hcomponents,
    hpaths, hfinal, rfl⟩

theorem apart_of_readRoot {document : Tree} {root : Fields} {contract : Contract}
    (h : readRoot document root = .ok contract) : ∃ seen, Apart seen contract.operations := by
  obtain ⟨schemas, schemaScope, entries, paths, final, -, -, -, -, -, hfinal, hitems⟩ :=
    readRoot_eq_ok h
  refine ⟨final.seen, ?_⟩
  rw [Contract.operations, hitems]
  refine Outcome.foldlM_keeps
    (P := fun state : ContractState => Apart state.seen (state.items.flatMap PathItem.operations))
    ?_ ⟨by simp, by simp, by simp, by simp⟩ hfinal
  intro state hs entry _ state' h
  exact hs.addItem h

end ContractReader

theorem Contract.ofTree_eq_ok {document : Tree} {contract : Contract}
    (h : Contract.ofTree document = .ok contract) :
    ∃ root, document.fields? = some root ∧
      ContractReader.readRoot document root = .ok contract := by
  obtain ⟨root, hroot, h⟩ := Outcome.bind_eq_ok.mp h
  obtain ⟨supported, -, h⟩ := Outcome.bind_eq_ok.mp h
  rw [Outcome.need_eq_ok] at hroot
  dsimp only at h
  cases supported with
  | false => cases h
  | true =>
    simp only [Bool.not_true, Bool.false_eq_true, if_false] at h
    split at h
    · exact ⟨root, hroot, h⟩
    · cases h

theorem Contract.apart_of_ofTree {document : Tree} {contract : Contract}
    (h : Contract.ofTree document = .ok contract) :
    ∃ seen, ContractReader.Apart seen contract.operations := by
  obtain ⟨root, -, h⟩ := Contract.ofTree_eq_ok h
  exact ContractReader.apart_of_readRoot h

/-- The operations of a contract that was read have different labels. -/
theorem Contract.nodup_labels {document : Tree} {contract : Contract}
    (h : Contract.ofTree document = .ok contract) :
    (contract.operations.map Operation.label).Nodup := by
  obtain ⟨seen, hapart⟩ := Contract.apart_of_ofTree h
  refine List.Nodup.map_on ?_ (List.Nodup.of_map _ hapart.nodup)
  intro a ha b hb hlabel
  have hmp := Operation.label_inj (hapart.methods a ha) (hapart.methods b hb) hlabel
  refine List.inj_on_of_nodup_map hapart.nodup ha hb ?_
  rw [ContractReader.shapeOf, ContractReader.shapeOf, hmp.1, hmp.2]

end ApiContract
