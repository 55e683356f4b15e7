import ApiContract.Proofs.Contract.Bodies
import ApiContract.Proofs.Endpoint.Signing

/-! # The types of bodies

The body of a signature is mapped from one schema when the schemas of all its media types count
as the same one. They do so when they refer to one component, and else only when they stand in
one place of the document. So a node that is written for one media type or for a parameter in
the body is mapped, and so is a reference for any number of media types; but a node that is
written out for two media types in their own places is taken for two schemas.
-/
namespace ApiContract.Signature

open ContractReader ApiContract.Types TypeTables

variable {contract : Contract} {scope : SchemaScope} {content content' : Content}
  {declared : Table Scalar (Option SchemaNode)} {s : Schema}

/-- The schema that is taken for all media types, when their schemas count as one. -/
def chosen? (content : Content) : Option Schema :=
  match Table.values content with
  | [] => none
  | schema :: rest => if isUniform (schema :: rest) then schema else none

theorem bodyType_eq (body : RequestBody) (method : String) :
    bodyType contract body method = (match chosen? body.content with
      | none => pure .binary
      | some s => do
        let binary ← Step.lift (contract.isBinary (some s))
        if binary then pure .binary
        else mapSchema contract (some s) method (.text "Body")) := by
  unfold bodyType chosen?
  cases Table.values body.content with
  | nil => rfl
  | cons schema rest =>
    dsimp only
    cases isUniform (schema :: rest) with
    | false => rfl
    | true => cases schema <;> rfl

theorem chosen?_eq_some : chosen? content = some s ↔
    ∃ e rest, content = e :: rest ∧ e.2 = some s ∧
      ∀ f ∈ rest, schemaKey f.2 = schemaKey (some s) := by
  cases content with
  | nil => simp [chosen?, Table.values]
  | cons e rest =>
    have hvalues : Table.values (e :: rest) = e.2 :: Table.values rest := rfl
    simp only [chosen?, hvalues, isUniform, Option.ite_none_right_eq_some, List.all_eq_true,
      beq_iff_eq, List.cons.injEq]
    constructor
    · rintro ⟨hkeys, hs⟩
      refine ⟨e, rest, ⟨rfl, rfl⟩, hs, fun f hf => ?_⟩
      exact hs ▸ hkeys f.2 (Table.mem_values.mpr ⟨f, hf, rfl⟩)
    · rintro ⟨_, _, ⟨rfl, rfl⟩, hs, hkeys⟩
      refine ⟨fun schema hschema => ?_, hs⟩
      obtain ⟨f, hf, rfl⟩ := Table.mem_values.mp hschema
      exact hs ▸ hkeys f hf

/-- All media types have the key of the schema that was chosen. -/
theorem schemaKey_of_chosen? (h : chosen? content = some s) :
    ∀ e ∈ content, schemaKey e.2 = schemaKey (some s) := by
  obtain ⟨e, rest, rfl, hs, hkeys⟩ := chosen?_eq_some.mp h
  exact List.forall_mem_cons.mpr ⟨hs ▸ rfl, hkeys⟩

/-- What tells the nodes of two media types apart: the component that a node refers to, or
else the place where it stands. -/
def nodeKey (scope : SchemaScope) : Option SchemaNode → SchemaKey
  | none => .absent
  | some (node, place) =>
    match scope.refersTo? node with
    | some target => .reference target
    | none => .inline place

/-- A schema has the key of its node, unless it is binary and no reference. -/
theorem schemaKey_of_readsNode {node : Option SchemaNode} {schema : Option Schema}
    (h : scope.ReadsNode node schema) :
    schemaKey schema = nodeKey scope node ∨ ∃ notes, schema = some (.binary notes) := by
  cases node with
  | none =>
    cases h
    exact Or.inl rfl
  | some declared =>
    obtain ⟨s, hread, rfl⟩ := h
    rcases SchemaScope.read_eq_ok hread with ⟨target, hrefers, rfl⟩ | ⟨hnone, hinline, hplace⟩
    · exact Or.inl (by simp only [schemaKey, nodeKey, hrefers])
    · cases s with
      | reference location target => exact absurd rfl (hinline location target)
      | binary notes => exact Or.inr ⟨notes, rfl⟩
      | _ => exact Or.inl (by simp only [schemaKey, nodeKey, hnone, hplace])

theorem schemaKey_of_refersTo? {node : Tree} {place target : String}
    (hrefers : scope.refersTo? node = some target) (hs : scope.read node place = .ok s) :
    schemaKey (some s) = .reference target := by
  rcases SchemaScope.read_eq_ok hs with ⟨target', hrefers', rfl⟩ | ⟨hnone, -⟩
  · cases hrefers.symm.trans hrefers'
    rfl
  · cases hrefers.symm.trans hnone

/-- One node counts as one schema in all its places exactly when it refers to a component. -/
theorem nodeKey_eq_iff {node : Tree} {place place' : String} :
    nodeKey scope (some (node, place)) = nodeKey scope (some (node, place')) ↔
      scope.refersTo? node ≠ none ∨ place = place' := by
  simp only [nodeKey]
  cases scope.refersTo? node <;> simp

/-- When a schema was chosen that is not binary, every node has its key. -/
theorem nodeKey_of_chosen? (read : ReadAs scope declared content) (h : chosen? content = some s)
    (inline : ∀ notes, s ≠ .binary notes) :
    ∀ d ∈ declared, nodeKey scope d.2 = schemaKey (some s) := by
  intro d hd
  obtain ⟨e, he, -, hread⟩ := exists_right_of_forall₂ read hd
  have hkey := schemaKey_of_chosen? h e he
  rcases schemaKey_of_readsNode hread with hnode | ⟨notes, hbinary⟩
  · exact hnode.symm.trans hkey
  · rw [hbinary] at hkey
    cases s with
    | binary notes => exact absurd rfl (inline notes)
    | _ => cases hkey

/-- Where a node is missing or two nodes differ, no schema is chosen but a binary one. -/
theorem binary_of_chosen? (read : ReadAs scope declared content) (h : chosen? content = some s)
    (apart : (∃ d ∈ declared, d.2 = none) ∨
      ∃ d ∈ declared, ∃ d' ∈ declared, nodeKey scope d.2 ≠ nodeKey scope d'.2) :
    ∃ notes, s = .binary notes := by
  by_contra hinline
  have hkeys := nodeKey_of_chosen? read h fun notes hs => hinline ⟨notes, hs⟩
  rcases apart with ⟨d, hd, hnone⟩ | ⟨d, hd, d', hd', hne⟩
  · have hkey := hkeys d hd
    rw [hnone] at hkey
    cases s <;> cases hkey
  · exact hne ((hkeys d hd).trans (hkeys d' hd').symm)

/-- All media types of a body have one node, each in its place. -/
def SameNode (declared : Table Scalar (Option SchemaNode)) (node : Tree) : Prop :=
  declared ≠ [] ∧ ∀ d ∈ declared, ∃ place, d.2 = some (node, place)

/-- The node refers to a component, or it stands in one place for all media types. -/
def IsShared (scope : SchemaScope) (declared : Table Scalar (Option SchemaNode))
    (node : Tree) : Prop :=
  scope.refersTo? node ≠ none ∨ ∀ d ∈ declared, ∀ d' ∈ declared, d.2 = d'.2

/-- One node for all media types counts as one schema exactly when it is shared by them. -/
theorem SameNode.nodeKey_eq_iff {node : Tree} (same : SameNode declared node) :
    (∀ d ∈ declared, ∀ d' ∈ declared, nodeKey scope d.2 = nodeKey scope d'.2) ↔
      IsShared scope declared node := by
  constructor
  · intro hkeys
    by_cases hrefers : scope.refersTo? node = none
    · refine Or.inr fun d hd d' hd' => ?_
      obtain ⟨place, hplace⟩ := same.2 d hd
      obtain ⟨place', hplace'⟩ := same.2 d' hd'
      have hkey := hkeys d hd d' hd'
      rw [hplace, hplace'] at hkey ⊢
      rcases Signature.nodeKey_eq_iff.mp hkey with hne | rfl
      · exact absurd hrefers hne
      · rfl
    · exact Or.inl hrefers
  · rintro (hrefers | hone) d hd d' hd'
    · obtain ⟨place, hplace⟩ := same.2 d hd
      obtain ⟨place', hplace'⟩ := same.2 d' hd'
      rw [hplace, hplace']
      exact Signature.nodeKey_eq_iff.mpr (Or.inl hrefers)
    · rw [hone d hd d' hd']

/-- One node for all media types is chosen when it is shared by them. -/
theorem chosen?_of_sameNode (read : ReadAs scope declared content) {node : Tree}
    (same : SameNode declared node) (shared : IsShared scope declared node) :
    ∃ d ∈ declared, ∃ place s, d.2 = some (node, place) ∧ scope.read node place = .ok s ∧
      chosen? content = some s := by
  obtain ⟨nonempty, one⟩ := same
  cases read with
  | nil => exact absurd rfl nonempty
  | @cons d e ds es hfirst hrest =>
    obtain ⟨place, hd⟩ := one d List.mem_cons_self
    obtain ⟨-, hread⟩ := hfirst
    rw [hd] at hread
    obtain ⟨s, hs, he⟩ := hread
    refine ⟨d, List.mem_cons_self, place, s, hd, hs,
      chosen?_eq_some.mpr ⟨e, es, rfl, he, fun f hf => ?_⟩⟩
    obtain ⟨d', hd', -, hread'⟩ := exists_left_of_forall₂ hrest hf
    obtain ⟨place', hplace'⟩ := one d' (List.mem_cons_of_mem _ hd')
    rw [hplace'] at hread'
    obtain ⟨s', hs', hf⟩ := hread'
    rw [hf]
    rcases shared with hrefers | hsame
    · obtain ⟨target, hrefers⟩ := Option.ne_none_iff_exists'.mp hrefers
      rw [schemaKey_of_refersTo? hrefers hs, schemaKey_of_refersTo? hrefers hs']
    · have hsame := hsame d List.mem_cons_self d' (List.mem_cons_of_mem _ hd')
      rw [hd, hplace'] at hsame
      cases hsame
      cases hs.symm.trans hs'
      rfl

/-- A schema without its place. -/
abbrev unplaced? (schema : Option Schema) : Option Schema := schema.map Schema.unplaced

theorem schemaKey_of_unplaced {schema schema' : Option Schema} {place target : String}
    (reference : schema = some (.reference place target))
    (like : unplaced? schema' = unplaced? schema) : schemaKey schema' = schemaKey schema := by
  subst reference
  cases schema' with
  | none => cases like
  | some s' =>
    cases s' with
    | reference place' target' =>
      simp only [Option.map_some, Schema.unplaced, Option.some.injEq, Schema.reference.injEq,
        true_and] at like
      rw [schemaKey, schemaKey, like]
    | _ => simp [Schema.unplaced] at like

theorem map_schemaKey_of_unplaced {schemas schemas' : List (Option Schema)}
    (references : ∀ schema ∈ schemas, ∃ place target, schema = some (.reference place target))
    (like : schemas'.map unplaced? = schemas.map unplaced?) :
    schemas'.map schemaKey = schemas.map schemaKey := by
  induction schemas generalizing schemas' with
  | nil => rw [List.map_eq_nil_iff.mp like, List.map_nil]
  | cons schema rest ih =>
    obtain ⟨hfirst, hrest⟩ := List.forall_mem_cons.mp references
    obtain ⟨schema', rest', rfl, hlike, hlikes⟩ := List.map_eq_cons_iff.mp like
    obtain ⟨place, target, hschema⟩ := hfirst
    rw [List.map_cons, List.map_cons, schemaKey_of_unplaced hschema hlike, ih hrest hlikes]

theorem isUniform_eq_all (schema : Option Schema) (rest : List (Option Schema)) :
    isUniform (schema :: rest) = (rest.map schemaKey).all (· == schemaKey schema) := by
  rw [isUniform, List.all_map]
  rfl

/-- The choice is the same up to places when there is one media type or all schemas refer to
components. -/
theorem unplaced_chosen? (like : content'.unplaced = content.unplaced)
    (settled : content.length ≤ 1 ∨
      ∀ e ∈ content, ∃ place target, e.2 = some (.reference place target)) :
    unplaced? (chosen? content') = unplaced? (chosen? content) := by
  have hvalues : (Table.values content').map unplaced? = (Table.values content).map unplaced? := by
    simpa [Content.unplaced, Table.values, List.map_map, Function.comp_def] using
      congrArg (List.map Prod.snd) like
  have hlength : (Table.values content).length = content.length := List.length_map _
  unfold chosen?
  cases hschemas : Table.values content with
  | nil =>
    rw [hschemas] at hvalues
    rw [List.map_eq_nil_iff.mp hvalues]
  | cons schema rest =>
    rw [hschemas] at hvalues hlength
    obtain ⟨schema', rest', hschemas', hlike, hlikes⟩ := List.map_eq_cons_iff.mp hvalues
    have huniform : isUniform (schema' :: rest') = isUniform (schema :: rest) := by
      rw [isUniform_eq_all, isUniform_eq_all]
      rcases settled with hone | hreferences
      · rw [← hlength, List.length_cons] at hone
        obtain rfl : rest = [] := List.length_eq_zero_iff.mp (by omega)
        rw [List.map_eq_nil_iff.mp hlikes]
        rfl
      · have hall : ∀ s ∈ schema :: rest, ∃ place target, s = some (.reference place target) := by
          intro s hs
          obtain ⟨e, he, rfl⟩ := Table.mem_values.mp (hschemas ▸ hs)
          exact hreferences e he
        obtain ⟨hfirst, hrest⟩ := List.forall_mem_cons.mp hall
        obtain ⟨place, target, hschema⟩ := hfirst
        rw [map_schemaKey_of_unplaced hrest hlikes, schemaKey_of_unplaced hschema hlike]
    rw [hschemas']
    dsimp only
    rw [huniform]
    cases isUniform (schema :: rest) with
    | false => rfl
    | true => exact hlike

/-- The type of a body with one schema: binary data when the schema counts as such, and else
what it is mapped to. -/
def TypedBy (contract : Contract) (method : String) (s : Schema) (w : Workspace)
    (type : TypeRef) : Prop :=
  (contract.isBinary (some s) = .ok true ∧ type = .binary) ∨
    (contract.isBinary (some s) = .ok false ∧
      ∃ w', mapSchema contract (some s) method (.text "Body") w = .ok type w')

theorem typedBy_of_bodyType {body : RequestBody} {method : String} {type : TypeRef}
    {w w' : Workspace} (h : bodyType contract body method w = .ok type w') :
    match chosen? body.content with
    | none => type = .binary
    | some s => TypedBy contract method s w type := by
  rw [bodyType_eq] at h
  cases hchosen : chosen? body.content with
  | none =>
    rw [hchosen] at h
    cases h
    rfl
  | some s =>
    rw [hchosen] at h
    obtain ⟨binary, v, hlift, h⟩ := Step.bind_eq_ok.mp h
    obtain ⟨hbinary, rfl⟩ := Step.lift_eq_ok.mp hlift
    cases binary with
    | true =>
      cases h
      exact Or.inl ⟨hbinary, rfl⟩
    | false => exact Or.inr ⟨hbinary, _, h⟩

theorem TypedBy.binary {method : String} {notes : SchemaNotes} {w : Workspace} {type : TypeRef}
    (h : TypedBy contract method (.binary notes) w type) : type = .binary := by
  rcases h with ⟨-, h⟩ | ⟨h, -⟩
  · exact h
  · cases h

/-- The nodes of the body count as different schemas, or one of them is missing. -/
def Differ (scope : SchemaScope) (declared : Table Scalar (Option SchemaNode)) : Prop :=
  declared = [] ∨ (∃ d ∈ declared, d.2 = none) ∨
    ∃ d ∈ declared, ∃ d' ∈ declared, nodeKey scope d.2 ≠ nodeKey scope d'.2

theorem eq_binary_of_differ {body : RequestBody} {method : String} {type : TypeRef}
    {w w' : Workspace} (h : bodyType contract body method w = .ok type w')
    (read : ReadAs scope declared body.content) (differ : Differ scope declared) :
    type = .binary := by
  have htype := typedBy_of_bodyType h
  cases hchosen : chosen? body.content with
  | none => rwa [hchosen] at htype
  | some s =>
    rw [hchosen] at htype
    rcases differ with rfl | hdiffer
    · obtain ⟨e, rest, hcontent, -⟩ := chosen?_eq_some.mp hchosen
      rw [hcontent] at read
      cases read
    · obtain ⟨notes, rfl⟩ := binary_of_chosen? read hchosen hdiffer
      exact htype.binary

theorem SameNode.differ {node : Tree} (same : SameNode declared node)
    (unshared : ¬IsShared scope declared node) : Differ scope declared := by
  rw [← same.nodeKey_eq_iff] at unshared
  push Not at unshared
  exact Or.inr (Or.inr unshared)

theorem typedBy_of_sameNode {body : RequestBody} {method : String} {type : TypeRef}
    {w w' : Workspace} (h : bodyType contract body method w = .ok type w')
    (read : ReadAs scope declared body.content) {node : Tree} (same : SameNode declared node)
    (shared : IsShared scope declared node) :
    ∃ d ∈ declared, ∃ place schema, d.2 = some (node, place) ∧
      scope.read node place = .ok schema ∧ TypedBy contract method schema w type := by
  obtain ⟨d, hd, place, schema, hplace, hread, hchosen⟩ := chosen?_of_sameNode read same shared
  have htype := typedBy_of_bodyType h
  rw [hchosen] at htype
  exact ⟨d, hd, place, schema, hplace, hread, htype⟩

/-- The body is the last parameter of a signature. When all its media types have one node that
refers to a component, or that stands in one place of the document, its type is that of the
schema read from the node. When the node is written out for several media types, when they have
different nodes or one has none, its type is binary. For one media type, or when all schemas
refer to components, the schema that is chosen does not depend on the places. -/
theorem bodyType_of_resolve {settings : Settings} {document : Tree}
    (parsed : Contract.ofTree document = .ok contract) {op : Operation}
    (member : op ∈ contract.operations) {body : RequestBody} (single : op.bodies = [body])
    {method : String} {s : Signature} {w w' : Workspace}
    (resolved : resolve contract settings op method w = .ok s w') :
    ∃ scope value shared declared bound binding v,
      ScopeOf document scope ∧ StandsIn document op.path op.method value shared ∧
      DeclaresBody scope op.path op.method value shared declared ∧
      (orderedParameters op).foldlM (bindParameter contract method) [] w = .ok bound v ∧
      s.parameters = bound ++ [binding] ∧ binding.place = .text "body" ∧
      (∀ node, SameNode declared node → IsShared scope.schemas declared node →
        ∃ d ∈ declared, ∃ place schema, d.2 = some (node, place) ∧
          scope.schemas.read node place = .ok schema ∧
          TypedBy contract method schema v binding.type) ∧
      (∀ node, SameNode declared node → ¬IsShared scope.schemas declared node →
        binding.type = .binary) ∧
      (Differ scope.schemas declared → binding.type = .binary) ∧
      ∀ body' : RequestBody, body'.unplaced = body.unplaced →
        (body.content.length ≤ 1 ∨
          ∀ e ∈ body.content, ∃ place target, e.2 = some (.reference place target)) →
        unplaced? (chosen? body'.content) = unplaced? (chosen? body.content) := by
  obtain ⟨scope, hscope, hoperations⟩ := Contract.readFrom_of_ofTree parsed
  obtain ⟨value, shared, hstands, hread⟩ := hoperations op member
  obtain ⟨declared, hdeclares, hcontent⟩ :=
    declaresBody_of_readOperation hread (single ▸ List.mem_singleton_self body)
  obtain ⟨bound, -, v, v₂, -, -, hbound, hbodies, -, -⟩ := build_eq_ok (resolve_eq_ok.mp resolved)
  rw [single] at hbodies
  obtain ⟨name, identifier, type, -, -, htype, hparameters⟩ := bindBody_eq_ok hbodies
  refine ⟨scope, value, shared, declared, bound, _, v, hscope, hstands, hdeclares, hbound,
    hparameters, rfl, fun node => typedBy_of_sameNode htype hcontent,
    fun node same unshared => eq_binary_of_differ htype hcontent (same.differ unshared),
    eq_binary_of_differ htype hcontent, fun body' like => unplaced_chosen? ?_⟩
  exact congrArg RequestBody.content like

/-- An operation that replaces something, with one schema node under two media types. -/
def replaceOperation (schema : Tree) : Fields :=
  let entry : Tree := .map [(.text "schema", schema)]
  [ (.text "requestBody", .map [
      (.text "content", .map [
        (.text "application/json", entry), (.text "application/xml", entry)])]),
    (.text "responses", .map [(.text "204", .map [(.text "description", .text "replaced")])])]

def replaceItem (schema : Tree) : Fields := [(.text "put", .map (replaceOperation schema))]

def replaceDocument (schema : Tree) : Tree :=
  .map [
    (.text "openapi", .text "3.0.0"),
    (.text "paths", .map [(.text "/chosen", .map (replaceItem schema))]),
    (.text "components", .map [(.text "schemas", .map [
      (.text "Pet", .map [
        (.text "type", .text "object"),
        (.text "properties", .map [
          (.text "name", .map [(.text "type", .text "string")])])])])])]

/-- The same operation in the older version of documents, which has one node for the body. -/
def olderReplaceDocument (schema : Tree) : Tree :=
  .map [
    (.text "swagger", .text "2.0"),
    (.text "paths", .map [
      (.text "/chosen", .map [(.text "put", .map [
        (.text "consumes", .list [.text "application/json", .text "application/xml"]),
        (.text "parameters", .list [.map [
          (.text "name", .text "data"), (.text "in", .text "body"), (.text "schema", schema)]]),
        (.text "responses", .map [
          (.text "204", .map [(.text "description", .text "replaced")])])])])])]

def parameterKinds (s : Signature) : List TypeKind := s.parameters.map fun b => b.type.kind

/-- The forms of the parameters of the first operation, when it can be signed. -/
def boundKinds (contract : Contract) : Option (List TypeKind) :=
  contract.operations.head?.bind fun op =>
    (Step.outcome (resolve contract {} op "replace" (.fresh contract))).1.toOption.map
      parameterKinds

/-- The forms of the types that the schemas of the first operation's bodies are mapped to. -/
def contentKinds (contract : Contract) : List (Option TypeKind) :=
  (contract.operations.head?.toList.flatMap Operation.bodies).flatMap fun body =>
    (Table.values body.content).map fun schema =>
      (Step.outcome (mapSchema contract schema "replace" (.text "Body")
        (.fresh contract))).1.toOption.map TypeRef.kind

theorem resolve_of_boundKinds {kinds : List TypeKind} (h : boundKinds contract = some kinds) :
    ∃ op ∈ contract.operations, ∃ s w,
      resolve contract {} op "replace" (.fresh contract) = .ok s w ∧ parameterKinds s = kinds := by
  obtain ⟨op, hop, hkinds⟩ := Option.bind_eq_some_iff.mp h
  exact ⟨op, List.mem_of_mem_head? hop, Step.exists_of_outcome hkinds⟩

def petReference : Tree := .map [(.text "$ref", .text "#/components/schemas/Pet")]

theorem bodyType_of_resolve_pet :
    ∃ contract op body s w scope value shared declared,
      Contract.ofTree (replaceDocument petReference) = .ok contract ∧
      op ∈ contract.operations ∧ op.bodies = [body] ∧
      resolve contract {} op "replace" (.fresh contract) = .ok s w ∧
      parameterKinds s = [.bean] ∧
      DeclaresBody scope op.path op.method value shared declared ∧
      ¬Differ scope.schemas declared := by
  obtain ⟨contract, parsed, hvalues⟩ := Outcome.exists_of_map_toOption
    (o := Contract.ofTree (replaceDocument petReference))
    (f := fun contract => (boundKinds contract, contract.operations.map fun op => op.bodies.length))
    (b := (some [.bean], [1])) (by decide +kernel)
  obtain ⟨hbound, hbodies⟩ := Prod.mk.inj hvalues
  obtain ⟨op, member, s, w, resolved, hkinds⟩ := resolve_of_boundKinds hbound
  obtain ⟨body, single⟩ : ∃ body, op.bodies = [body] := by
    have hlength : op.bodies.length ∈ [1] := hbodies ▸ List.mem_map_of_mem member
    exact List.length_eq_one_iff.mp (List.mem_singleton.mp hlength)
  obtain ⟨scope, value, shared, declared, bound, binding, v, -, -, hdeclares, -, hparameters, -, -,
    -, hdiffer, -⟩ := bodyType_of_resolve parsed member single resolved
  refine ⟨contract, op, body, s, w, scope, value, shared, declared, parsed, member, single,
    resolved, hkinds, hdeclares, fun differ => ?_⟩
  rw [parameterKinds, hparameters, List.map_append, List.map_singleton, hdiffer differ] at hkinds
  have hlast := congrArg List.getLast? hkinds
  rw [List.getLast?_concat] at hlast
  cases hlast

def strings : Tree :=
  .map [(.text "type", .text "array"), (.text "items", .map [(.text "type", .text "string")])]

/-- The strings are one node under both media types, and each is mapped to a list; but the body
is binary, since the node is written out twice. In the older document it is a list. -/
theorem bodyType_written_twice :
    ∃ contract older scope declared,
      Contract.ofTree (replaceDocument strings) = .ok contract ∧
      ScopeOf (replaceDocument strings) scope ∧
      StandsIn (replaceDocument strings) "/chosen" "put" (.map (replaceOperation strings))
        .null ∧
      DeclaresBody scope "/chosen" "put" (.map (replaceOperation strings)) .null declared ∧
      SameNode declared strings ∧
      contentKinds contract = [some .list, some .list] ∧
      boundKinds contract = some [.binary] ∧
      Contract.ofTree (olderReplaceDocument strings) = .ok older ∧
      boundKinds older = some [.list] := by
  obtain ⟨contract, parsed, hvalues⟩ := Outcome.exists_of_map_toOption
    (o := Contract.ofTree (replaceDocument strings))
    (f := fun contract => (contentKinds contract, boundKinds contract))
    (b := ([some .list, some .list], some [.binary])) (by decide +kernel)
  obtain ⟨older, parsed', hbound'⟩ := Outcome.exists_of_map_toOption
    (o := Contract.ofTree (olderReplaceDocument strings)) (f := boundKinds) (b := some [.list])
    (by decide +kernel)
  obtain ⟨hcontent, hbound⟩ := Prod.mk.inj hvalues
  obtain ⟨scope, hscope, -⟩ := Contract.readFrom_of_ofTree parsed
  have hitem : (Scalar.text "/chosen", Tree.map (replaceItem strings)) ∈
      [(Scalar.text "/chosen", Tree.map (replaceItem strings))] := List.mem_singleton_self _
  have hoperation : (Scalar.text "put", Tree.map (replaceOperation strings)) ∈
      replaceItem strings := List.mem_singleton_self _
  have hstands : StandsIn (replaceDocument strings) "/chosen" "put"
      (.map (replaceOperation strings)) .null :=
    .intro rfl rfl hitem rfl rfl hoperation (by decide)
  have hdeclares : DeclaresBody scope "/chosen" "put" (.map (replaceOperation strings)) .null
      (List.map (mediaNode (Pointer.ofTokens ["paths", "/chosen", "put"] ++ "/requestBody"))
        [(.text "application/json", .map [(.text "schema", strings)]),
          (.text "application/xml", .map [(.text "schema", strings)])]) :=
    .request rfl rfl rfl rfl rfl
  refine ⟨contract, older, scope, _, parsed, hscope, hstands, hdeclares, ⟨by simp, fun d hd => ?_⟩,
    hcontent, hbound, parsed', hbound'⟩
  obtain ⟨e, he, rfl⟩ := List.mem_map.mp hd
  simp only [List.mem_cons, List.not_mem_nil, or_false] at he
  rcases he with rfl | rfl <;> exact ⟨_, rfl⟩

end ApiContract.Signature
