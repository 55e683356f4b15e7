import ApiContract.Proofs.Contract.Duplicates
import ApiContract.Proofs.Contract.UpgradedOperations

/-! # Documents of the newer version

A document of the older version becomes one of the newer version item by item. Its components
move, references to them follow, bodies and responses get their contents, and all else stays as
it is. Both are read as the same contract but for the places of the schemas.
-/
namespace ApiContract

namespace Upgrade

open ContractReader

/-- What becomes of the value of a keyword of a path item. -/
def itemValue (root item : Fields) (key : String) (value : Tree) : Tree :=
  if key = "parameters" then parameters value
  else if lowered key ∈ httpMethods then
    value.mapFields (operation root (valueOf item "parameters"))
  else value

def item (root fields : Fields) : Fields := Fields.rewrite (itemValue root fields) fields

/-- What becomes of the value of a keyword of a document. -/
def rootValue (root : Fields) (key : String) (value : Tree) : Tree :=
  if key = "paths" then values (Tree.mapFields (item root)) value else value

def replacedKeywords : List String := ["swagger", "definitions", "openapi", "components"]

def root (fields : Fields) : Fields :=
  Fields.rewrite (rootValue fields) (Fields.without replacedKeywords fields) ++ [
    (.text "openapi", .text "3.0.0"),
    (.text "components", .map [(.text "schemas", values schema (mapOf fields "definitions"))])]

/-- The document of the newer version for one of the older version. -/
def document : Tree → Tree := Tree.mapFields root

/-- The operations of a path item. -/
def operationNodes (item : Fields) : List Fields :=
  (item.filter fun e => e.1.text?.any fun key => lowered key ∈ httpMethods).filterMap
    fun e => e.2.fields?

/-- A path item that is no reference, and whose operations are of the older version. -/
def FitsItem (root item : Fields) : Prop :=
  Fields.hasField item "$ref" = false ∧
    (∀ p ∈ parameterNodes (valueOf item "parameters"), FitsParameter p) ∧
    ∀ op ∈ operationNodes item, FitsOperation root (valueOf item "parameters") op

instance (root item : Fields) : Decidable (FitsItem root item) :=
  inferInstanceAs (Decidable (_ ∧ _ ∧ _))

/-- The path items of a document. -/
def itemNodes (root : Fields) : List Fields :=
  ((mapOf root "paths").fields?.getD []).filterMap fun e => e.2.fields?

/-- A document of the older version whose only references are those of schemas, without the
keywords of the newer version, and with at most one body for an operation. -/
def Fits (root : Fields) : Prop :=
  isSwagger root = true ∧ ∀ item ∈ itemNodes root, FitsItem root item

instance (root : Fields) : Decidable (Fits root) := inferInstanceAs (Decidable (_ ∧ _))

end Upgrade

namespace ContractReader

open Upgrade Schema

variable {scope scope' : Scope} {fields : Fields} {shared : Tree} {path : String}

/-- Items read so far that differ in the places of schemas only. -/
def AlikeStates (state state' : ItemState) : Prop :=
  state'.seen = state.seen ∧
    state'.operations.map Operation.unplaced = state.operations.map Operation.unplaced

theorem refines_addEntry (hscope : Newer scope scope') {entry entry' : Scalar × Tree}
    (hshared : ∀ p ∈ parameterNodes shared, FitsParameter p) (hkey : entry'.1 = entry.1)
    (hvalue : ∀ key, entry.1.text? = some key → lowered key ∈ httpMethods →
      entry'.2 = entry.2.mapFields (operation scope.root shared) ∧
        ∀ node, entry.2.fields? = some node → FitsOperation scope.root shared node)
    {state state' : ItemState} (hs : AlikeStates state state') :
    Outcome.Refines AlikeStates (addEntry scope path shared state entry)
      (addEntry scope' path (parameters shared) state' entry') := by
  unfold addEntry
  rw [hkey, hs.1]
  refine .bind_same fun key hfound => ?_
  rw [Outcome.need_eq_ok] at hfound
  dsimp only
  split
  · next hmethod =>
    obtain ⟨hnode, hfits⟩ := hvalue key hfound hmethod
    rw [hnode]
    split
    · exact .error
    · refine .bind (refines_readOperation hscope hshared hfits) fun op op' _ hop => .pure ⟨rfl, ?_⟩
      simp only [List.map_append, hs.2, List.map_singleton, hop]
  · exact .pure hs

theorem valueOf_item_parameters {root : Fields} :
    valueOf (item root fields) "parameters" = parameters (valueOf fields "parameters") := by
  rw [valueOf, item, Fields.field?_rewrite]
  exact Option.getD_map parameters .null _

theorem hasField_item {root : Fields} (k : String) :
    Fields.hasField (item root fields) k = Fields.hasField fields k :=
  Fields.hasField_rewrite

/-- The entries of an item, those of which that are operations being rewritten as such. -/
theorem refines_addEntries (hscope : Newer scope scope') (hfits : FitsItem scope.root fields)
    {state state' : ItemState} (hs : AlikeStates state state') :
    Outcome.Refines AlikeStates
      (fields.foldlM (addEntry scope path (valueOf fields "parameters")) state)
      ((item scope.root fields).foldlM
        (addEntry scope' path (valueOf (item scope.root fields) "parameters")) state') := by
  obtain ⟨-, hshared, hoperations⟩ := hfits
  rw [valueOf_item_parameters]
  refine .foldlM_map (fun e he state state' hs => ?_) hs
  refine refines_addEntry hscope hshared ?_ (fun key hkey hmethod => ⟨?_, ?_⟩) hs
  · rfl
  · have hne : key ≠ "parameters" := by
      rintro rfl
      exact absurd hmethod (by decide +kernel)
    simp only [Fields.rewritten_of_text? hkey, itemValue, hne, if_false, hmethod, if_true]
  · intro node hnode
    refine hoperations node (List.mem_filterMap.mpr ⟨e, List.mem_filter.mpr ⟨he, ?_⟩, hnode⟩)
    simp [hkey, hmethod]

/-- Documents read so far that differ in the places of schemas only. -/
def AlikeItems (state state' : ContractState) : Prop :=
  state'.seen = state.seen ∧
    state'.items.map PathItem.unplaced = state.items.map PathItem.unplaced

theorem refines_addItem (hscope : Newer scope scope') {entry : Scalar × Tree}
    (hfits : ∀ f, entry.2.fields? = some f → FitsItem scope.root f)
    {state state' : ContractState} (hs : AlikeItems state state') :
    Outcome.Refines AlikeItems (addItem scope state entry)
      (addItem scope' state' (entry.1, entry.2.mapFields (item scope.root))) := by
  have hdirect : Direct entry.2 := fun f hf => (hfits f hf).1
  refine .bind_same fun path _ => ?_
  refine .bind (refines_deref hdirect (hdirect.mapFields fun _ => hasField_item "$ref")) ?_
  rintro _ _ - ⟨rfl, rfl⟩
  refine .bind (refines_fields entry.2 _) ?_
  rintro fields _ - ⟨hfields, rfl⟩
  have hstart : AlikeStates { seen := state.seen } { seen := state'.seen } := ⟨hs.1, rfl⟩
  refine .bind (refines_addEntries hscope (hfits fields hfields) hstart)
    fun final final' _ hfinal => .pure ⟨hfinal.1, ?_⟩
  simp only [List.map_append, hs.2, List.map_singleton, PathItem.unplaced, hfinal.2]

theorem field?_root {k : String} (hk : k ∉ replacedKeywords) :
    Fields.field? (root fields) k = (Fields.field? fields k).map (rootValue fields k) := by
  have hnew : k ≠ "openapi" ∧ k ≠ "components" := by
    constructor
    · rintro rfl
      exact hk (by decide)
    · rintro rfl
      exact hk (by decide)
  rw [root, Fields.field?_append, Fields.field?_rewrite, Fields.field?_without, if_neg hk]
  simp [Fields.field?_cons, Scalar.text?, hnew.1.symm, hnew.2.symm]

theorem field?_root_replaced {k : String} (hk : k ∈ replacedKeywords) :
    Fields.field? (root fields) k = Fields.field? [(.text "openapi", .text "3.0.0"),
      (.text "components", .map [(.text "schemas", values schema (mapOf fields "definitions"))])]
      k := by
  rw [root, Fields.field?_append, Fields.field?_rewrite, Fields.field?_without, if_pos hk,
    Option.map_none, Option.none_or]

theorem isSwagger_root : isSwagger (root fields) = false := by
  rw [isSwagger, Fields.hasField_eq, field?_root_replaced (by decide)]
  rfl

theorem isSupported_root : isSupported (root fields) = .ok true := by
  have hopenapi : Fields.field? (root fields) "openapi" = some (.text "3.0.0") :=
    field?_root_replaced (by decide)
  have hswagger : Fields.field? (root fields) "swagger" = none :=
    field?_root_replaced (by decide)
  unfold isSupported versionText
  rw [hopenapi, hswagger]
  rfl

theorem valueOf_root {k : String} (hk : k ∉ replacedKeywords) (hpaths : k ≠ "paths") :
    valueOf (root fields) k = valueOf fields k := by
  have hsame : rootValue fields k = id := by
    funext value
    simp [rootValue, hpaths]
  rw [valueOf, field?_root hk, hsame, Option.map_id, id, valueOf]

theorem fields?_paths_root :
    (mapOf (root fields) "paths").fields? = (mapOf fields "paths").fields?.map fun entries =>
      entries.map fun e => (e.1, e.2.mapFields (item fields)) := by
  have hvalue : valueOf (root fields) "paths" =
      values (Tree.mapFields (item fields)) (valueOf fields "paths") := by
    rw [valueOf, field?_root (by decide)]
    exact Option.getD_map (values (Tree.mapFields (item fields))) .null _
  rw [mapOf, hvalue, fields?_orElse_values]
  rfl

theorem schemaTree_of_isSwagger {t : Tree} (hroot : t.fields? = some fields)
    (h : isSwagger fields = true) : schemaTree t = .ok (mapOf fields "definitions") := by
  unfold schemaTree
  rw [hroot]
  refine Outcome.bind_eq_ok.mpr ⟨fields, rfl, ?_⟩
  rw [if_pos h]
  rfl

/-- The components of the newer version are the definitions of the older one. -/
theorem exists_schemaTree_document {t : Tree} (hroot : t.fields? = some fields) :
    ∃ schemas, schemaTree (document t) = .ok schemas ∧
      schemas.fields? = (mapOf fields "definitions").fields?.map fun entries =>
        entries.map fun e => (e.1, schema e.2) := by
  have hdocument : (document t).fields? = some (root fields) := by
    rw [document, Tree.fields?_mapFields, hroot, Option.map_some]
  have hcomponents : mapOf (root fields) "components" =
      .map [(.text "schemas", values schema (mapOf fields "definitions"))] := by
    rw [mapOf, valueOf, field?_root_replaced (by decide)]
    rfl
  refine ⟨(values schema (mapOf fields "definitions")).orElse (.map []), ?_, ?_⟩
  · unfold schemaTree
    rw [hdocument]
    refine Outcome.bind_eq_ok.mpr ⟨_, rfl, ?_⟩
    rw [isSwagger_root, if_neg Bool.false_ne_true, hcomponents]
    rfl
  · rw [fields?_orElse_values, mapOf, orElse_orElse]

theorem scopeOf_of_fields? {root nodes : Fields} {schemas : Tree}
    (h : schemas.fields? = some nodes) : scopeOf root schemas =
      .ok { start := componentStart root, components := Table.keys nodes } := by
  have hscalars : ∀ m ∈ nodes.map fun e => Tree.scalar e.1,
      ∃ b, need .illTyped m.scalar? = .ok b ∧ True := by
    intro m hm
    obtain ⟨e, -, rfl⟩ := List.mem_map.mp hm
    exact ⟨e.1, rfl, trivial⟩
  obtain ⟨names, hnames, -⟩ := Outcome.exists_mapM hscalars
  have hscope : scopeOf root schemas =
      .ok { start := componentStart root, components := names } := by
    unfold scopeOf
    rw [Tree.members?_of_fields? h]
    exact Outcome.bind_eq_ok.mpr ⟨_, rfl, Outcome.bind_eq_ok.mpr ⟨names, hnames, rfl⟩⟩
  rw [hscope, scopeOf_eq_ok hscope h]

/-- The scope of references of the newer version. -/
def newScope (entries : Fields) : SchemaScope :=
  { start := newStart, components := Table.keys (entries.map fun e => (e.1, schema e.2)) }

theorem scopeOf_root {entries : Fields} {schemas : Tree}
    (h : schemas.fields? = some (entries.map fun e => (e.1, schema e.2))) :
    scopeOf (root fields) schemas = .ok (newScope entries) := by
  rw [scopeOf_of_fields? h, componentStart, isSwagger_root]
  rfl

theorem newer_root (t : Tree) (hswagger : isSwagger fields = true) (entries : Fields) : Newer
    { document := t, root := fields,
      schemas := { start := componentStart fields, components := Table.keys entries } }
    { document := document t, root := root fields, schemas := newScope entries } := by
  refine ⟨⟨?_, rfl, ?_⟩, hswagger, isSwagger_root⟩
  · simp [componentStart, hswagger, oldStart]
  · simp [newScope, Table.keys]

theorem refines_readComponent {scope scope' : SchemaScope}
    (hscope : SchemaScope.Upgraded scope scope') (entry : Scalar × Tree) :
    Outcome.Refines (fun c c' => (c'.1, c'.2.unplaced) = (c.1, c.2.unplaced))
      (readComponent scope entry) (readComponent scope' (entry.1, schema entry.2)) := by
  refine .bind_same fun name _ => ?_
  refine .bind (SchemaScope.refines_read hscope entry.2 _ _) fun s s' _ hs => .pure ?_
  rw [hs]

/-- Components are read as before, each from its rewritten node. -/
theorem refines_readComponents {scope scope' : SchemaScope}
    (hscope : SchemaScope.Upgraded scope scope') (entries : Fields) :
    Outcome.Refines (fun cs cs' => cs'.map (fun c => (c.1, c.2.unplaced)) =
        cs.map fun c => (c.1, c.2.unplaced))
      (entries.mapM (readComponent scope))
      ((entries.map fun e => (e.1, schema e.2)).mapM (readComponent scope')) := by
  intro cs hcs
  obtain ⟨cs', hcs', hall⟩ :=
    Outcome.Refines.mapM_map (fun entry _ => refines_readComponent hscope entry) cs hcs
  exact ⟨cs', hcs', Outcome.map_eq_of_forall₂ hall⟩

theorem refines_addItems (hscope : Newer scope scope') {paths : Fields}
    (hfits : ∀ e ∈ paths, ∀ f, e.2.fields? = some f → FitsItem scope.root f) :
    Outcome.Refines AlikeItems (paths.foldlM (addItem scope) {})
      ((paths.map fun e => (e.1, e.2.mapFields (item scope.root))).foldlM (addItem scope') {}) := by
  refine .foldlM_map (fun e he state state' hs => ?_) ⟨rfl, rfl⟩
  exact refines_addItem hscope (hfits e he) hs

theorem refines_readRoot {t : Tree} (hroot : t.fields? = some fields) (hfits : Fits fields) :
    Outcome.Refines (fun c c' => Contract.unplaced c' = c.unplaced)
      (readRoot t fields) (readRoot (document t) (root fields)) := by
  obtain ⟨hswagger, hitems⟩ := hfits
  obtain ⟨schemas', hschemas', hfields'⟩ := exists_schemaTree_document hroot
  intro c h
  obtain ⟨schemas, hschemas, h⟩ := Outcome.bind_eq_ok.mp h
  obtain ⟨schemaScope, hscope, h⟩ := Outcome.bind_eq_ok.mp h
  obtain ⟨info, hinfo, h⟩ := Outcome.bind_eq_ok.mp h
  obtain ⟨title, htitle, h⟩ := Outcome.bind_eq_ok.mp h
  obtain ⟨version, hversion, h⟩ := Outcome.bind_eq_ok.mp h
  obtain ⟨entries, hentries, h⟩ := Outcome.bind_eq_ok.mp h
  obtain ⟨components, hcomponents, h⟩ := Outcome.bind_eq_ok.mp h
  obtain ⟨paths, hpaths, h⟩ := Outcome.bind_eq_ok.mp h
  obtain ⟨final, hfinal, h⟩ := Outcome.bind_eq_ok.mp h
  cases h
  rw [Outcome.need_eq_ok] at hentries hpaths
  rw [schemaTree_of_isSwagger hroot hswagger] at hschemas
  cases hschemas
  rw [hentries, Option.map_some] at hfields'
  obtain rfl := scopeOf_eq_ok hscope hentries
  have hscope' : scopeOf (root fields) schemas' = .ok (newScope entries) := scopeOf_root hfields'
  have hnewer := newer_root t hswagger entries
  obtain ⟨components', hcomponents', hsameComponents⟩ :=
    refines_readComponents hnewer.schemas entries components hcomponents
  have hfits : ∀ e ∈ paths, ∀ f, e.2.fields? = some f → FitsItem fields f := by
    intro e he f hf
    refine hitems f ?_
    rw [itemNodes, hpaths, Option.getD_some]
    exact List.mem_filterMap.mpr ⟨e, he, hf⟩
  obtain ⟨final', hfinal', -, hsameItems⟩ := refines_addItems hnewer hfits final hfinal
  have hinfo' : mapOf (root fields) "info" = mapOf fields "info" := by
    rw [mapOf, valueOf_root (by decide) (by decide), mapOf]
  have hpaths' : (mapOf (root fields) "paths").fields? =
      some (paths.map fun e => (e.1, e.2.mapFields (item fields))) := by
    rw [fields?_paths_root, hpaths, Option.map_some]
  refine ⟨{ title, version, items := final'.items, schemas := components' }, ?_, ?_⟩
  · refine Outcome.bind_eq_ok.mpr ⟨schemas', hschemas', ?_⟩
    refine Outcome.bind_eq_ok.mpr ⟨_, hscope', ?_⟩
    rw [hinfo']
    refine Outcome.bind_eq_ok.mpr ⟨info, hinfo, ?_⟩
    refine Outcome.bind_eq_ok.mpr ⟨title, htitle, ?_⟩
    refine Outcome.bind_eq_ok.mpr ⟨version, hversion, ?_⟩
    refine Outcome.bind_eq_ok.mpr ⟨_, Outcome.need_eq_ok.mpr hfields', ?_⟩
    refine Outcome.bind_eq_ok.mpr ⟨components', hcomponents', ?_⟩
    refine Outcome.bind_eq_ok.mpr ⟨_, Outcome.need_eq_ok.mpr hpaths', ?_⟩
    exact Outcome.bind_eq_ok.mpr ⟨final', hfinal', rfl⟩
  · simp only [Contract.unplaced, hsameItems, hsameComponents]

end ContractReader

open ContractReader in
/-- A document of the older version that is read as a contract becomes one of the newer
version that is read as the same contract, but for the places of its schemas. -/
theorem Contract.ofTree_upgrade {t : Tree} {fields : Fields} {contract : Contract}
    (hroot : t.fields? = some fields) (hfits : Upgrade.Fits fields)
    (h : Contract.ofTree t = .ok contract) :
    ∃ contract', Contract.ofTree (Upgrade.document t) = .ok contract' ∧
      contract'.unplaced = contract.unplaced := by
  have hroot' : (Upgrade.document t).fields? = some (Upgrade.root fields) := by
    rw [Upgrade.document, Tree.fields?_mapFields, hroot, Option.map_some]
  obtain ⟨hpaths, hread⟩ : ((Fields.field? fields "paths").bind Tree.fields?).isSome = true ∧
      readRoot t fields = .ok contract := by
    obtain ⟨found, hfound, h⟩ := Outcome.bind_eq_ok.mp h
    rw [Outcome.need_eq_ok, hroot] at hfound
    cases hfound
    obtain ⟨supported, -, h⟩ := Outcome.bind_eq_ok.mp h
    cases supported with
    | false => cases h
    | true =>
      simp only [Bool.not_true, Bool.false_eq_true, if_false] at h
      split at h
      · next hpaths => exact ⟨hpaths, h⟩
      · cases h
  have hpaths' :
      ((Fields.field? (Upgrade.root fields) "paths").bind Tree.fields?).isSome = true := by
    rw [field?_root (by decide)]
    cases hvalue : Fields.field? fields "paths" with
    | none =>
      rw [hvalue] at hpaths
      cases hpaths
    | some value =>
      rw [hvalue, Option.bind_some] at hpaths
      simpa [Upgrade.rootValue, Upgrade.values] using hpaths
  obtain ⟨contract', hread', hlike⟩ := refines_readRoot hroot hfits contract hread
  refine ⟨contract', ?_, hlike⟩
  refine Outcome.bind_eq_ok.mpr ⟨_, Outcome.need_eq_ok.mpr hroot', ?_⟩
  refine Outcome.bind_eq_ok.mpr ⟨true, isSupported_root, ?_⟩
  simp only [Bool.not_true, Bool.false_eq_true, if_false, hpaths', if_true]
  exact hread'

/-- Clients that are put and searched. The shared body is replaced by that of the first
operation, and the parameter of the second one is described by its own keywords. -/
def clientRoot : Fields :=
  let client : Tree := .map [(.text "$ref", .text "#/definitions/Client")]
  let body (description : String) (schema : Tree) : Tree := .map [
    (.text "name", .text "client"), (.text "in", .text "body"),
    (.text "description", .text description), (.text "required", .bool true),
    (.text "schema", schema)]
  [ (.text "swagger", .text "2.0"),
    (.text "produces", .list [.text "application/json", .text "application/xml"]),
    (.text "definitions", .map [
      (.text "Client", .map [
        (.text "type", .text "object"),
        (.text "properties", .map [(.text "referrer", client)])])]),
    (.text "paths", .map [
      (.text "/clients/{id}", .map [
        (.text "parameters", .list [
          .map [(.text "name", .text "id"), (.text "in", .text "path"),
            (.text "type", .text "string")],
          body "any client" (.map [])]),
        (.text "put", .map [
          (.text "consumes", .list [.text "application/json"]),
          (.text "parameters", .list [body "the client" client]),
          (.text "responses", .map [(.text "200", .map [(.text "schema", client)])])])]),
      (.text "/clients", .map [
        (.text "get", .map [
          (.text "parameters", .list [
            .map [(.text "name", .text "groups"), (.text "in", .text "query"),
              (.text "type", .text "array"),
              (.text "items", .map [(.text "type", .text "string")])]]),
          (.text "responses", .map [
            (.text "200", .map [
              (.text "schema", .map [(.text "type", .text "array"), (.text "items", client)])]),
            (.text "404", .map [(.text "description", .text "no group")])])])])])]

theorem Contract.ofTree_upgrade_clients :
    ∃ contract contract', Contract.ofTree (.map clientRoot) = .ok contract ∧
      (contract.operations.map fun op => op.bodies.map fun b => b.description.text?) =
        [[some "the client"], []] ∧
      Contract.ofTree (Upgrade.document (.map clientRoot)) = .ok contract' ∧
      contract'.unplaced = contract.unplaced := by
  have hroot : (Tree.map clientRoot).fields? = some clientRoot := rfl
  have hfits : Upgrade.Fits clientRoot := by decide +kernel
  obtain ⟨contract, h, hbodies⟩ := Outcome.exists_of_map_toOption
    (o := Contract.ofTree (.map clientRoot))
    (f := fun contract =>
      contract.operations.map fun op => op.bodies.map fun b => b.description.text?)
    (b := [[some "the client"], []]) (by decide +kernel)
  obtain ⟨contract', h', hlike⟩ := Contract.ofTree_upgrade hroot hfits h
  exact ⟨contract, contract', h, hbodies, h', hlike⟩

end ApiContract
