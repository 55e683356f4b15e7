import ApiContract.Proofs.Contract.Duplicates
import ApiContract.Proofs.Contract.UpgradedOperations

/-! # The schemas of bodies in a document

A body of an operation comes from a parameter in the body, with one schema node for all media
types, or from a request body, with a node for each of them. Each schema of the body is read
from its node, and unless it is a reference it stands where the node stands in the document.
-/
namespace ApiContract

/-- A schema as a document declares it: a node, and the place where it stands. -/
abbrev SchemaNode := Tree × String

namespace SchemaScope

open ContractReader (referenceOf?)

/-- The component that a node refers to. -/
def refersTo? (scope : SchemaScope) (node : Tree) : Option String :=
  (referenceOf? node).bind scope.referenceTarget?

/-- The schema is what the node is read as; without a node there is none. -/
def ReadsNode (scope : SchemaScope) : Option SchemaNode → Option Schema → Prop
  | none, schema => schema = none
  | some (node, place), schema => ∃ s, scope.read node place = .ok s ∧ schema = some s

variable {scope : SchemaScope} {node : Tree} {place : String} {s : Schema}

/-- A node is read as a reference when it refers to a component, and as a schema that stands in
its place when it does not. -/
theorem read_eq_ok (h : scope.read node place = .ok s) :
    (∃ target, scope.refersTo? node = some target ∧ s = .reference place target) ∨
      scope.refersTo? node = none ∧ (∀ location target, s ≠ .reference location target) ∧
        s.location = place := by
  unfold read at h
  cases hsize : node.size with
  | zero =>
    rw [hsize] at h
    cases h
  | succ depth =>
    rw [hsize] at h
    obtain ⟨fields, hfields, hread⟩ := readNode_eq_ok h
    have hrefers : scope.refersTo? node =
        (Fields.field? fields "$ref").bind scope.referenceTarget? := by
      rw [refersTo?, referenceOf?, hfields, Option.bind_some]
    rcases hread with ⟨ref, target, href, htarget, rfl⟩ | ⟨hnone, hformed⟩
    · rw [href, Option.bind_some] at hrefers
      exact Or.inl ⟨target, hrefers.trans htarget, rfl⟩
    · rw [hnone, Option.bind_none] at hrefers
      refine Or.inr ⟨hrefers, hformed.inline, ?_⟩
      rw [Schema.location, hformed.noted]
      rfl

end SchemaScope

namespace ContractReader

variable {scope : Scope} {path method : String} {value shared : Tree} {op : Operation}

/-- The node under a media type of a request body. -/
def mediaNode (location : String) (entry : Scalar × Tree) : Scalar × Option SchemaNode :=
  (entry.1, (entry.2.fields?.bind fun f => Fields.field? f "schema").map fun node =>
    (node, location ++ "/content/" ++ entry.1.display ++ "/schema"))

/-- The nodes of the schemas that a body has for its media types: a parameter in the body has
one in one place for all of them, a request body has one in its own place for each. -/
inductive DeclaresBody (scope : Scope) (path method : String) (value shared : Tree) :
    Table Scalar (Option SchemaNode) → Prop
  | parameter {node : Fields} {merged : Declarations} {place name : Scalar} {fields : Fields}
      {location : String} {types : List Scalar} (object : value.fields? = some node)
      (merge : mergeParameters scope (Pointer.ofTokens ["paths", path])
        (Pointer.ofTokens ["paths", path, method]) (method.toUpper ++ " " ++ path) shared
        (valueOf node "parameters") = .ok merged)
      (declared : ((place, name), fields, location) ∈ merged) (inBody : place = .text "body")
      (media : mediaTypes scope node "consumes" = .ok types) :
      DeclaresBody scope path method value shared
        (Table.ofPairs (types.map fun t =>
          (t, some (mapOf fields "schema", location ++ "/schema"))))
  | request {node : Fields} {request target : Tree} {fields entries : Fields}
      (object : value.fields? = some node)
      (declared : Fields.field? node "requestBody" = some request)
      (followed : deref scope.document request
        (Pointer.ofTokens ["paths", path, method] ++ "/requestBody") = .ok target)
      (body : target.fields? = some fields)
      (content : ((valueOf fields "content").orElse (.map [])).fields? = some entries) :
      DeclaresBody scope path method value shared
        (entries.map (mediaNode (Pointer.ofTokens ["paths", path, method] ++ "/requestBody")))

/-- Each media type has the schema that its node is read as. -/
def ReadAs (scope : SchemaScope) (declared : Table Scalar (Option SchemaNode))
    (content : Content) : Prop :=
  List.Forall₂ (fun d e => e.1 = d.1 ∧ scope.ReadsNode d.2 e.2) declared content

theorem readAs_sameContent {schemas : SchemaScope} {node : Tree} {place : String} {s : Schema}
    (read : schemas.read node place = .ok s) (types : List Scalar) :
    ReadAs schemas (Table.ofPairs (types.map fun t => (t, some (node, place))))
      (sameContent s types) := by
  have hmap := Table.map_ofPairs (fun _ : Option SchemaNode => some s)
    (types.map fun t => (t, some (node, place)))
  rw [List.map_map] at hmap
  change _ = sameContent s types at hmap
  rw [← hmap, ReadAs, List.forall₂_map_right_iff, List.forall₂_same]
  intro d hd
  have hvalue := Table.mem_values_ofPairs (Table.mem_values.mpr ⟨d, hd, rfl⟩)
  simp only [List.map_map, List.mem_map] at hvalue
  obtain ⟨t, -, hnode⟩ := hvalue
  exact ⟨rfl, hnode ▸ ⟨s, read, rfl⟩⟩

theorem readAs_readContent {content : Tree} {location : String} {read : Content} {entries : Fields}
    (hentries : (content.orElse (.map [])).fields? = some entries)
    (h : readContent scope content location = .ok read) :
    ReadAs scope.schemas (entries.map (mediaNode location)) read := by
  obtain ⟨_, hfound, h⟩ := Outcome.bind_eq_ok.mp h
  cases hentries.symm.trans (Outcome.need_eq_ok.mp hfound)
  rw [ReadAs, List.forall₂_map_left_iff]
  refine (Outcome.forall₂_of_mapM h).imp fun entry e hread => ?_
  unfold mediaNode
  split at hread
  · next node hnode =>
    obtain ⟨type, htype, hread⟩ := Outcome.bind_eq_ok.mp hread
    obtain ⟨s, hs, hread⟩ := Outcome.bind_eq_ok.mp hread
    cases hread
    have hdisplay : type = entry.1.display := by
      unfold Scalar.written at htype
      split at htype
      · cases htype
        rfl
      · cases htype
    rw [hnode, Option.map_some, ← hdisplay]
    exact ⟨rfl, s, hs, rfl⟩
  · next hnone =>
    cases hread
    rw [hnone, Option.map_none]
    exact ⟨rfl, rfl⟩

/-- Every body of an operation has the schemas of nodes that the operation declares. -/
theorem declaresBody_of_readOperation
    (h : readOperation scope path method value shared = .ok op) {body : RequestBody}
    (hbody : body ∈ op.bodies) :
    ∃ declared, DeclaresBody scope path method value shared declared ∧
      ReadAs scope.schemas declared body.content := by
  obtain ⟨node, hnode, h⟩ := Outcome.bind_eq_ok.mp h
  obtain ⟨tags, -, h⟩ := Outcome.bind_eq_ok.mp h
  obtain ⟨extensions, -, h⟩ := Outcome.bind_eq_ok.mp h
  obtain ⟨merged, hmerged, h⟩ := Outcome.bind_eq_ok.mp h
  obtain ⟨declared, hdeclared, h⟩ := Outcome.bind_eq_ok.mp h
  obtain ⟨withBody, hadded, h⟩ := Outcome.bind_eq_ok.mp h
  obtain ⟨complete, hcomplete, h⟩ := Outcome.bind_eq_ok.mp h
  obtain ⟨⟨⟩, -, h⟩ := Outcome.bind_eq_ok.mp h
  cases h
  have hobject := Outcome.need_eq_ok.mp hnode
  obtain ⟨responses, rfl⟩ := addResponses_eq_ok hcomplete
  obtain ⟨ps, bs, -, hbs, rfl⟩ := foldlM_bindDeclared_eq_ok_iff.mp hdeclared
  have hown : body ∈ bs → ∃ declared, DeclaresBody scope path method value shared declared ∧
      ReadAs scope.schemas declared body.content := by
    intro hmem
    obtain ⟨entry, hentry, hread⟩ := Outcome.exists_of_mem_mapM hbs hmem
    obtain ⟨hdeclares, hkey⟩ := List.mem_filter.mp hentry
    obtain ⟨content, hcontent, rfl⟩ := Outcome.map_eq_ok.mp hread
    obtain ⟨s, hs, hcontent⟩ := Outcome.bind_eq_ok.mp hcontent
    obtain ⟨types, htypes, hcontent⟩ := Outcome.bind_eq_ok.mp hcontent
    cases hcontent
    exact ⟨_, .parameter hobject hmerged hdeclares (Scalar.beq_text_iff.mp hkey) htypes,
      readAs_sameContent hs types⟩
  unfold addRequestBody at hadded
  split at hadded
  · cases hadded
    exact hown (by simpa using hbody)
  · next request hrequest =>
    obtain ⟨added, hread, hadded⟩ := Outcome.bind_eq_ok.mp hadded
    cases hadded
    have hmem : body ∈ bs ∨ body = added := by simpa using hbody
    rcases hmem with hmem | rfl
    · exact hown hmem
    · obtain ⟨target, hfollowed, hread⟩ := Outcome.bind_eq_ok.mp hread
      obtain ⟨fields, hfields, hread⟩ := Outcome.bind_eq_ok.mp hread
      obtain ⟨content, hcontent, hread⟩ := Outcome.bind_eq_ok.mp hread
      cases hread
      obtain ⟨entries, hentries, -⟩ := Outcome.bind_eq_ok.mp hcontent
      have hentries := Outcome.need_eq_ok.mp hentries
      exact ⟨_, .request hobject hrequest hfollowed (Outcome.need_eq_ok.mp hfields) hentries,
        readAs_readContent hentries hcontent⟩

/-- The node of an operation in a document, and the parameters of its path item. -/
inductive StandsIn (document : Tree) (path method : String) : Tree → Tree → Prop
  | intro {root paths fields : Fields} {node item value : Tree} {key : String}
      (object : document.fields? = some root) (listed : (mapOf root "paths").fields? = some paths)
      (itemEntry : (.text path, node) ∈ paths)
      (followed : deref document node (Pointer.ofTokens ["paths", path]) = .ok item)
      (itemObject : item.fields? = some fields)
      (operationEntry : (.text key, value) ∈ fields) (named : lowered key = method) :
      StandsIn document path method value (valueOf fields "parameters")

/-- What the reading of a document depends on besides its nodes. -/
structure ScopeOf (document : Tree) (scope : Scope) : Prop where
  whole : scope.document = document
  object : document.fields? = some scope.root
  components : ∃ schemas, schemaTree document = .ok schemas ∧
    scopeOf scope.root schemas = .ok scope.schemas

/-- An operation that was read from its node in the document. -/
def ReadFrom (document : Tree) (scope : Scope) (op : Operation) : Prop :=
  ∃ value shared, StandsIn document op.path op.method value shared ∧
    readOperation scope op.path op.method value shared = .ok op

variable {document : Tree}

theorem readFrom_addEntry {state state' : ItemState} {entry : Scalar × Tree}
    (stands : ∀ key, entry.1 = .text key → StandsIn document path (lowered key) entry.2 shared)
    (hs : ∀ op ∈ state.operations, ReadFrom document scope op)
    (h : addEntry scope path shared state entry = .ok state') :
    ∀ op ∈ state'.operations, ReadFrom document scope op := by
  obtain ⟨key, hkey, h⟩ := Outcome.bind_eq_ok.mp h
  dsimp only at h
  split at h
  · split at h
    · cases h
    · obtain ⟨op, hop, h⟩ := Outcome.bind_eq_ok.mp h
      cases h
      have hread : ReadFrom document scope op := by
        obtain ⟨hmethod, hpath⟩ := method_path_of_readOperation hop
        refine ⟨entry.2, shared, ?_, by rw [hmethod, hpath, hop]⟩
        rw [hmethod, hpath]
        exact stands key (Scalar.text?_eq_some.mp (Outcome.need_eq_ok.mp hkey))
      exact List.forall_mem_append.mpr ⟨hs, by simpa using hread⟩
  · cases h
    exact hs

theorem readFrom_addItem (whole : scope.document = document)
    (object : document.fields? = some scope.root) {paths : Fields}
    (listed : (mapOf scope.root "paths").fields? = some paths) {state state' : ContractState}
    {entry : Scalar × Tree} (hentry : entry ∈ paths)
    (hs : ∀ op ∈ state.items.flatMap PathItem.operations, ReadFrom document scope op)
    (h : addItem scope state entry = .ok state') :
    ∀ op ∈ state'.items.flatMap PathItem.operations, ReadFrom document scope op := by
  obtain ⟨path, hpath, h⟩ := Outcome.bind_eq_ok.mp h
  obtain ⟨item, hitem, h⟩ := Outcome.bind_eq_ok.mp h
  obtain ⟨fields, hfields, h⟩ := Outcome.bind_eq_ok.mp h
  obtain ⟨final, hfinal, h⟩ := Outcome.bind_eq_ok.mp h
  cases h
  have hkey : entry.1 = .text path := Scalar.text?_eq_some.mp (Outcome.need_eq_ok.mp hpath)
  have hread : ∀ op ∈ final.operations, ReadFrom document scope op := by
    refine Outcome.foldlM_keeps
      (P := fun state : ItemState => ∀ op ∈ state.operations, ReadFrom document scope op)
      (fun state hstate e he state' hstep => readFrom_addEntry ?_ hstate hstep) (by simp) hfinal
    intro key hk
    have hlisted : (Scalar.text path, entry.2) ∈ paths := hkey ▸ hentry
    have hoperation : (Scalar.text key, e.2) ∈ fields := hk ▸ he
    exact .intro object listed hlisted (whole ▸ hitem) (Outcome.need_eq_ok.mp hfields)
      hoperation rfl
  rw [List.flatMap_append, List.flatMap_singleton]
  exact List.forall_mem_append.mpr ⟨hs, hread⟩

end ContractReader

open ContractReader in
/-- The operations of a contract were read from the nodes of its document. -/
theorem Contract.readFrom_of_ofTree {document : Tree} {contract : Contract}
    (h : Contract.ofTree document = .ok contract) :
    ∃ scope, ScopeOf document scope ∧ ∀ op ∈ contract.operations, ReadFrom document scope op := by
  obtain ⟨root, hroot, h⟩ := ofTree_eq_ok h
  obtain ⟨schemas, schemaScope, entries, paths, final, hschemas, hscope, -, -, hpaths, hfinal,
    hitems⟩ := readRoot_eq_ok h
  refine ⟨{ document, root, schemas := schemaScope }, ⟨rfl, hroot, schemas, hschemas, hscope⟩, ?_⟩
  rw [operations, hitems]
  exact Outcome.foldlM_keeps
    (P := fun state : ContractState =>
      ∀ op ∈ state.items.flatMap PathItem.operations, ReadFrom document _ op)
    (fun _ hs _ he _ hstep => readFrom_addItem rfl hroot hpaths he hs hstep) (by simp) hfinal

end ApiContract
