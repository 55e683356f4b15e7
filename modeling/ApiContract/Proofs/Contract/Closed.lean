import Mathlib.Data.List.ReduceOption
import ApiContract.Proofs.Contract.Targets

/-! # References inside a contract

Every schema of a contract, wherever an operation or a component holds it, was read in one
scope, the names of which are those of the components. References below it lead to
components, however deep they stand.
-/
namespace ApiContract

namespace Schema

/-- Every reference below the schema leads to one of the names. -/
def Within (names : List String) (s : Schema) : Prop :=
  ∀ location target, .reference location target ∈ s.nodes → target ∈ names

variable {names : List String} {s : Schema}

theorem within_iff :
    s.Within names ↔
      (∀ location target, s = .reference location target → target ∈ names) ∧
        ∀ p ∈ s.parts, p.Within names := by
  simp only [Within, nodes_eq s, List.mem_cons, List.mem_flatMap]
  constructor
  · intro h
    exact ⟨fun location target hs => h location target (Or.inl hs.symm),
      fun p hp location target ht => h location target (Or.inr ⟨p, hp, ht⟩)⟩
  · rintro ⟨hself, hparts⟩ location target (hs | ⟨p, hp, ht⟩)
    · exact hself location target hs.symm
    · exact hparts p hp location target ht

theorem within_any (notes : SchemaNotes) : (any notes).Within names :=
  within_iff.mpr ⟨by simp, by simp [parts]⟩

/-- What holds of all references below a schema holds of those below each of its nodes. -/
theorem Within.node (h : s.Within names) {n : Schema} (hn : n ∈ s.nodes) : n.Within names :=
  fun location target ht => h location target (nodes_subset hn ht)

def isArray : Schema → Bool
  | array .. => true
  | _ => false

def isMap : Schema → Bool
  | map .. => true
  | _ => false

end Schema

namespace SchemaScope

variable {scope : SchemaScope} {names : List String}

/-- The names of the scope are among some names. -/
def Lists (scope : SchemaScope) (names : List String) : Prop :=
  ∀ name, .text name ∈ scope.components → name ∈ names

theorem within_readWithin (hscope : scope.Lists names) (depth : ℕ) {node : Tree}
    {location : String} {s : Schema} (h : scope.readWithin depth node location = .ok s) :
    s.Within names := by
  induction depth generalizing node location s with
  | zero => cases h
  | succ depth ih =>
    rw [Schema.within_iff]
    obtain ⟨fields, -, ⟨ref, target, -, htarget, rfl⟩ | ⟨-, hformed⟩⟩ := readNode_eq_ok h
    · obtain ⟨pointer, -, -, -, hmem⟩ := referenceTarget?_eq_some htarget
      refine ⟨?_, by simp [Schema.parts]⟩
      rintro _ _ ⟨⟩
      exact hscope target hmem
    · have hwritten := hformed.writtenOut
      refine ⟨fun place target hs => absurd hs (hwritten.inline place target), ?_⟩
      intro p hp
      rcases hwritten.parts p hp with ⟨part, place, hpart⟩ | ⟨notes, rfl⟩
      · exact ih hpart
      · exact Schema.within_any notes

/-- A schema that was read in the scope. -/
def Reads (scope : SchemaScope) (s : Schema) : Prop :=
  ∃ node location, scope.read node location = .ok s

theorem Reads.within {s : Schema} (h : scope.Reads s) (hscope : scope.Lists names) :
    s.Within names := by
  obtain ⟨node, location, h⟩ := h
  exact within_readWithin hscope _ h

end SchemaScope

def Content.schemas (content : Content) : List Schema := (Table.values content).reduceOption

/-- The schemas that an operation holds: of parameters, of bodies and of responses. -/
def Operation.schemas (op : Operation) : List Schema :=
  (op.parameters.map Parameter.schema).reduceOption ++
    (op.bodies.flatMap fun b => Content.schemas b.content) ++
    (Table.values op.responses).flatMap fun r => Content.schemas r.content

namespace ContractReader

variable {scope : Scope}

theorem reads_readFirstMedia {location : String} {entries : Fields} {s : Schema}
    (h : readFirstMedia scope location entries = .ok (some s)) : scope.schemas.Reads s := by
  induction entries with
  | nil => cases h
  | cons e rest ih =>
    unfold readFirstMedia at h
    split at h
    · obtain ⟨type, -, h⟩ := Outcome.bind_eq_ok.mp h
      obtain ⟨schema, hschema, h⟩ := Outcome.bind_eq_ok.mp h
      cases h
      exact ⟨_, _, hschema⟩
    · exact ih h

theorem reads_readParameterSchema {fields : Fields} {location : String} {s : Schema}
    (h : readParameterSchema scope fields location = .ok (some s)) : scope.schemas.Reads s := by
  have hmap : ∀ node place, (scope.schemas.read node place).map some = .ok (some s) →
      scope.schemas.Reads s := by
    intro node place h
    obtain ⟨schema, hschema, hs⟩ := Outcome.map_eq_ok.mp h
    cases hs
    exact ⟨_, _, hschema⟩
  unfold readParameterSchema at h
  split at h
  · exact hmap _ _ h
  · split at h
    · obtain ⟨entries, -, h⟩ := Outcome.bind_eq_ok.mp h
      exact reads_readFirstMedia h
    · dsimp only at h
      split at h
      · cases h
      · exact hmap _ _ h

theorem schemas_sameContent {schema : Schema} {types : List Scalar} :
    ∀ s ∈ Content.schemas (sameContent schema types), s = schema := by
  intro s hs
  rw [Content.schemas, List.reduceOption_mem_iff] at hs
  have hvalue := Table.mem_values_ofPairs hs
  simp only [List.map_map, List.mem_map] at hvalue
  obtain ⟨type, -, hs⟩ := hvalue
  exact (Option.some.inj hs).symm

theorem reads_readContent {value : Tree} {location : String} {content : Content}
    (h : readContent scope value location = .ok content) :
    ∀ s ∈ Content.schemas content, scope.schemas.Reads s := by
  obtain ⟨entries, -, h⟩ := Outcome.bind_eq_ok.mp h
  intro s hs
  rw [Content.schemas, List.reduceOption_mem_iff, Table.mem_values] at hs
  obtain ⟨e, he, hs⟩ := hs
  obtain ⟨entry, -, hentry⟩ := Outcome.exists_of_mem_mapM h he
  split at hentry
  · obtain ⟨type, -, hentry⟩ := Outcome.bind_eq_ok.mp hentry
    obtain ⟨schema, hschema, hentry⟩ := Outcome.bind_eq_ok.mp hentry
    cases hentry
    cases hs
    exact ⟨_, _, hschema⟩
  · cases hentry
    cases hs

/-- Every schema of the operation was read in the scope. -/
def ReadIn (scope : Scope) (op : Operation) : Prop := ∀ s ∈ op.schemas, scope.schemas.Reads s

theorem mem_schemas {op : Operation} {s : Schema} :
    s ∈ op.schemas ↔ (∃ p ∈ op.parameters, p.schema = some s) ∨
      (∃ b ∈ op.bodies, s ∈ Content.schemas b.content) ∨
      ∃ r ∈ Table.values op.responses, s ∈ Content.schemas r.content := by
  simp [Operation.schemas, List.reduceOption_mem_iff]

theorem ReadIn.addParameter {op : Operation} (hop : ReadIn scope op) {p : Parameter}
    (hp : ∀ s, p.schema = some s → scope.schemas.Reads s) :
    ReadIn scope { op with parameters := op.parameters ++ [p] } := by
  intro s hmem
  rcases mem_schemas.mp hmem with ⟨q, hq, hs⟩ | hs
  · rcases List.mem_append.mp hq with hq | hq
    · exact hop s (mem_schemas.mpr (Or.inl ⟨q, hq, hs⟩))
    · obtain rfl := List.mem_singleton.mp hq
      exact hp s hs
  · exact hop s (mem_schemas.mpr (Or.inr hs))

theorem ReadIn.addBody {op : Operation} (hop : ReadIn scope op) {b : RequestBody}
    (hb : ∀ s ∈ Content.schemas b.content, scope.schemas.Reads s) :
    ReadIn scope { op with bodies := op.bodies ++ [b] } := by
  intro s hmem
  rcases mem_schemas.mp hmem with hs | ⟨c, hc, hs⟩ | hs
  · exact hop s (mem_schemas.mpr (Or.inl hs))
  · rcases List.mem_append.mp hc with hc | hc
    · exact hop s (mem_schemas.mpr (Or.inr (Or.inl ⟨c, hc, hs⟩)))
    · obtain rfl := List.mem_singleton.mp hc
      exact hb s hs
  · exact hop s (mem_schemas.mpr (Or.inr (Or.inr hs)))

theorem readIn_bindDeclared {node : Fields} {op op' : Operation}
    {entry : (Scalar × Scalar) × Declared} (hop : ReadIn scope op)
    (h : bindDeclared scope node op entry = .ok op') : ReadIn scope op' := by
  unfold bindDeclared at h
  dsimp only at h
  split at h
  · obtain ⟨schema, hschema, h⟩ := Outcome.bind_eq_ok.mp h
    obtain ⟨types, -, h⟩ := Outcome.bind_eq_ok.mp h
    cases h
    refine hop.addBody fun s hs => ?_
    rw [schemas_sameContent s hs]
    exact ⟨_, _, hschema⟩
  · obtain ⟨schema, hschema, h⟩ := Outcome.bind_eq_ok.mp h
    cases h
    refine hop.addParameter fun s hs => ?_
    obtain rfl : schema = some s := hs
    exact reads_readParameterSchema hschema

theorem readIn_addRequestBody {node : Fields} {location : String} {op op' : Operation}
    (hop : ReadIn scope op) (h : addRequestBody scope node location op = .ok op') :
    ReadIn scope op' := by
  unfold addRequestBody at h
  split at h
  · cases h
    exact hop
  · obtain ⟨body, hbody, h⟩ := Outcome.bind_eq_ok.mp h
    cases h
    obtain ⟨target, -, hbody⟩ := Outcome.bind_eq_ok.mp hbody
    obtain ⟨fields, -, hbody⟩ := Outcome.bind_eq_ok.mp hbody
    obtain ⟨content, hcontent, hbody⟩ := Outcome.bind_eq_ok.mp hbody
    cases hbody
    exact hop.addBody (reads_readContent hcontent)

theorem reads_readResponse {node : Fields} {location : String} {entry : Scalar × Tree}
    {response : Response} (h : readResponse scope node location entry = .ok response) :
    ∀ s ∈ Content.schemas response.content, scope.schemas.Reads s := by
  obtain ⟨code, -, h⟩ := Outcome.bind_eq_ok.mp h
  obtain ⟨target, -, h⟩ := Outcome.bind_eq_ok.mp h
  obtain ⟨fields, -, h⟩ := Outcome.bind_eq_ok.mp h
  obtain ⟨content, hcontent, h⟩ := Outcome.bind_eq_ok.mp h
  cases h
  unfold readResponseContent at hcontent
  split at hcontent
  · split at hcontent
    · obtain ⟨schema, hschema, hcontent⟩ := Outcome.bind_eq_ok.mp hcontent
      obtain ⟨types, -, hcontent⟩ := Outcome.bind_eq_ok.mp hcontent
      cases hcontent
      intro s hs
      rw [schemas_sameContent s hs]
      exact ⟨_, _, hschema⟩
    · cases hcontent
      simp [Content.schemas, Table.values]
  · exact reads_readContent hcontent

theorem readIn_addResponses {node : Fields} {location : String} {op op' : Operation}
    (hop : ReadIn scope op) (h : addResponses scope node location op = .ok op') :
    ReadIn scope op' := by
  obtain ⟨entries, -, h⟩ := Outcome.bind_eq_ok.mp h
  obtain ⟨responses, hresponses, h⟩ := Outcome.bind_eq_ok.mp h
  cases h
  intro s hs
  rcases mem_schemas.mp hs with hs | hs | ⟨r, hr, hs⟩
  · exact hop s (mem_schemas.mpr (Or.inl hs))
  · exact hop s (mem_schemas.mpr (Or.inr (Or.inl hs)))
  · have hmem : r ∈ responses := by simpa using Table.mem_values_ofPairs hr
    obtain ⟨entry, -, hentry⟩ := Outcome.exists_of_mem_mapM hresponses hmem
    exact reads_readResponse hentry s hs

theorem readIn_readOperation {path method : String} {value shared : Tree} {op : Operation}
    (h : readOperation scope path method value shared = .ok op) : ReadIn scope op := by
  obtain ⟨node, -, h⟩ := Outcome.bind_eq_ok.mp h
  obtain ⟨tags, -, h⟩ := Outcome.bind_eq_ok.mp h
  obtain ⟨extensions, -, h⟩ := Outcome.bind_eq_ok.mp h
  obtain ⟨merged, -, h⟩ := Outcome.bind_eq_ok.mp h
  obtain ⟨declared, hdeclared, h⟩ := Outcome.bind_eq_ok.mp h
  obtain ⟨withBody, hbody, h⟩ := Outcome.bind_eq_ok.mp h
  obtain ⟨complete, hcomplete, h⟩ := Outcome.bind_eq_ok.mp h
  obtain ⟨⟨⟩, -, h⟩ := Outcome.bind_eq_ok.mp h
  cases h
  have hbound : ReadIn scope declared :=
    Outcome.foldlM_keeps (fun _ ho _ _ _ h => readIn_bindDeclared ho h)
      (by simp [ReadIn, Operation.schemas, Table.values]) hdeclared
  exact readIn_addResponses (readIn_addRequestBody hbound hbody) hcomplete

theorem readIn_addEntry {path : String} {shared : Tree} {state state' : ItemState}
    {entry : Scalar × Tree} (hs : ∀ op ∈ state.operations, ReadIn scope op)
    (h : addEntry scope path shared state entry = .ok state') :
    ∀ op ∈ state'.operations, ReadIn scope op := by
  obtain ⟨key, -, h⟩ := Outcome.bind_eq_ok.mp h
  dsimp only at h
  split at h
  · split at h
    · cases h
    · obtain ⟨op, hop, h⟩ := Outcome.bind_eq_ok.mp h
      cases h
      exact List.forall_mem_append.mpr ⟨hs, by simpa using readIn_readOperation hop⟩
  · cases h
    exact hs

theorem readIn_addItem {state state' : ContractState} {entry : Scalar × Tree}
    (hs : ∀ op ∈ state.items.flatMap PathItem.operations, ReadIn scope op)
    (h : addItem scope state entry = .ok state') :
    ∀ op ∈ state'.items.flatMap PathItem.operations, ReadIn scope op := by
  obtain ⟨path, -, h⟩ := Outcome.bind_eq_ok.mp h
  obtain ⟨node, -, h⟩ := Outcome.bind_eq_ok.mp h
  obtain ⟨fields, -, h⟩ := Outcome.bind_eq_ok.mp h
  obtain ⟨final, hfinal, h⟩ := Outcome.bind_eq_ok.mp h
  cases h
  have hitem : ∀ op ∈ final.operations, ReadIn scope op :=
    Outcome.foldlM_keeps (P := fun item : ItemState => ∀ op ∈ item.operations, ReadIn scope op)
      (fun _ hitem _ _ _ h => readIn_addEntry hitem h) (by simp) hfinal
  rw [List.flatMap_append, List.flatMap_singleton]
  exact List.forall_mem_append.mpr ⟨hs, hitem⟩

/-- The components of a contract have the names that the document gives them. -/
theorem text_keys_of_readComponents {scope : SchemaScope} {entries : Fields}
    {components : Table String Schema} (h : entries.mapM (readComponent scope) = .ok components) :
    (Table.keys components).map Scalar.text = Table.keys entries := by
  rw [Table.keys, List.map_map]
  refine Outcome.map_of_mapM (fun entry component hread => ?_) h
  obtain ⟨name, hname, hread⟩ := Outcome.bind_eq_ok.mp hread
  obtain ⟨schema, -, hread⟩ := Outcome.bind_eq_ok.mp hread
  cases hread
  exact (Scalar.text?_eq_some.mp (Outcome.need_eq_ok.mp hname)).symm

theorem reads_readComponents {scope : SchemaScope} {entries : Fields}
    {components : Table String Schema} (h : entries.mapM (readComponent scope) = .ok components) :
    ∀ s ∈ Table.values components, scope.Reads s := by
  intro s hs
  obtain ⟨component, hcomponent, rfl⟩ := Table.mem_values.mp hs
  obtain ⟨entry, -, hread⟩ := Outcome.exists_of_mem_mapM h hcomponent
  obtain ⟨name, -, hread⟩ := Outcome.bind_eq_ok.mp hread
  obtain ⟨schema, hschema, hread⟩ := Outcome.bind_eq_ok.mp hread
  cases hread
  exact ⟨_, _, hschema⟩

end ContractReader

namespace Contract

open ContractReader

/-- The schemas that a contract holds: its components and those of its operations. -/
def roots (contract : Contract) : List Schema :=
  Table.values contract.schemas ++ contract.operations.flatMap Operation.schemas

/-- All schemas of a contract were read in a scope that lists its components. -/
theorem reads_of_ofTree {document : Tree} {contract : Contract}
    (h : Contract.ofTree document = .ok contract) :
    ∃ scope : SchemaScope, scope.Lists (Table.keys contract.schemas) ∧
      ∀ s ∈ contract.roots, scope.Reads s := by
  obtain ⟨root, -, h⟩ := ofTree_eq_ok h
  obtain ⟨schemas, scope, entries, paths, final, -, hscope, hentries, hcomponents, -, hfinal,
    hitems⟩ := readRoot_eq_ok h
  have hoperations : ∀ op ∈ final.items.flatMap PathItem.operations, ReadIn _ op :=
    Outcome.foldlM_keeps
      (P := fun state : ContractState =>
        ∀ op ∈ state.items.flatMap PathItem.operations,
          ReadIn { document, root, schemas := scope } op)
      (fun _ hs _ _ _ h => readIn_addItem hs h) (by simp) hfinal
  refine ⟨scope, ?_, ?_⟩
  · intro name hname
    rw [scopeOf_eq_ok hscope hentries, ← text_keys_of_readComponents hcomponents,
      List.mem_map] at hname
    obtain ⟨key, hkey, htext⟩ := hname
    cases htext
    exact hkey
  · intro s hs
    rcases List.mem_append.mp hs with hs | hs
    · exact reads_readComponents hcomponents s hs
    · rw [Contract.operations, hitems] at hs
      obtain ⟨op, hop, hs⟩ := List.mem_flatMap.mp hs
      exact hoperations op hop s hs

/-- A contract whose references all lead to components of it. -/
def Closed (contract : Contract) : Prop :=
  ∀ s ∈ contract.roots, s.Within (Table.keys contract.schemas)

theorem closed_of_ofTree {document : Tree} {contract : Contract}
    (h : Contract.ofTree document = .ok contract) : contract.Closed := by
  obtain ⟨scope, hlists, hreads⟩ := reads_of_ofTree h
  exact fun s hs => (hreads s hs).within hlists

end Contract

end ApiContract
