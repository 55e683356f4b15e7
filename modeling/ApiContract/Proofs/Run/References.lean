import ApiContract.Proofs.Endpoint.References
import ApiContract.Proofs.Run.Stages

/-! # Emitted types refer to emitted classes

Over a whole run the tables stay linked: the attempts that are signed add resolved
types, and those that are refused leave no trace. As every promise was kept when the
tables were built, each bean and enum that an emitted type mentions is an entry, and
each entry is printed once for each dialect.
-/
namespace ApiContract

open TypeTables

variable {contract : Contract} {settings : Settings}

/-- A workspace in which all types refer to entries. -/
structure Workspace.Linked (contract : Contract) (w : Workspace) : Prop where
  tables : TypeTables.Linked contract w.tables
  kept : Kept contract w.tables
  signatures : ∀ e ∈ w.signatures, e.2.Typed contract w.tables

theorem Workspace.linked_of_buildTables {ds : List Diagnostic} {w : Workspace}
    (h : Types.buildTables contract (.fresh contract) = .ok ds w) : w.Linked contract := by
  obtain ⟨htables, hkept⟩ := Types.linked_of_buildTables h
  have hnone := (Types.buildTables_of Step.KeepsSignatures.uniform).of_ok h
  exact ⟨htables, hkept, by simp [hnone, Workspace.fresh]⟩

/-- Attempts keep a workspace linked, whichever of them are signed. -/
theorem Signature.Attempts.linked {es kept : List Endpoint} {refused : List (Endpoint × Fault)}
    {w w' : Workspace} (h : Attempts contract settings es w kept refused w')
    (hw : w.Linked contract) : w.tables.Reaches w'.tables ∧ w'.Linked contract := by
  induction h with
  | done => exact ⟨Reaches.refl _, hw⟩
  | @signed e rest kept refused w v w' s resolved _ ih =>
    obtain ⟨hr, htables, htyped⟩ := linked_build (resolve_eq_ok.mp resolved) hw.tables
    have hold := (resolve_keepsSignatures _ _).of_ok resolved
    have hv : Workspace.Linked contract
        { v with signatures := Table.put v.signatures e.operation.label s } :=
      { tables := htables, kept := hw.kept.reaches hr
        signatures := by
          intro entry hentry
          rcases Table.mem_put hentry with hentry | rfl
          · exact (hw.signatures entry (hold ▸ hentry)).reaches hr
          · exact htyped }
    obtain ⟨hr', hw'⟩ := ih hv
    exact ⟨hr.trans hr', hw'⟩
  | @refused e rest kept refused w v w' fault location event failed _ ih =>
    have hsame := tables_of_resolve_eq_error hw.tables.reserved failed
    have hold := (resolve_keepsSignatures _ _).of_error failed
    have hv : Workspace.Linked contract { v with log := v.log.push event } :=
      { tables := by rw [hsame]; exact hw.tables
        kept := by rw [hsame]; exact hw.kept
        signatures := by rw [hsame, hold]; exact hw.signatures }
    obtain ⟨hr, hw'⟩ := ih hv
    exact ⟨by simpa [hsame] using hr, hw'⟩

def Artifact.isFor (kind : ArtifactKind) (name : String) (a : Artifact) : Bool :=
  a.kind == kind && a.name == name

theorem Artifact.ofResource_eq_ok {signatures : Table String Signature} {d : Dialect}
    {resource : Resource} {a : Artifact}
    (h : Artifact.ofResource signatures d settings resource = .ok a) :
    a.kind = .resource ∧ a.name = resource.name := by
  obtain ⟨unit, -, h⟩ := Outcome.bind_eq_ok.mp h
  cases h
  exact ⟨rfl, rfl⟩

theorem Artifact.ofBean_eq_ok {d : Dialect} {bean : Bean} {a : Artifact}
    (h : Artifact.ofBean d settings bean = .ok a) : a.kind = .bean ∧ a.name = bean.name := by
  obtain ⟨unit, -, h⟩ := Outcome.bind_eq_ok.mp h
  cases h
  exact ⟨rfl, rfl⟩

theorem Artifact.ofEnum_eq_ok {d : Dialect} {enum : EnumType} {a : Artifact}
    (h : Artifact.ofEnum d settings enum = .ok a) : a.kind = .enum ∧ a.name = enum.name := by
  obtain ⟨unit, -, h⟩ := Outcome.bind_eq_ok.mp h
  cases h
  exact ⟨rfl, rfl⟩

/-- Among artifacts of one kind, those for a name are as many as items of that name. -/
theorem countP_isFor {α : Type} {print : α → Outcome Artifact} {kind : ArtifactKind}
    {nameOf : α → String} {items : List α} {artifacts : List Artifact}
    (hprint : ∀ item a, print item = .ok a → a.kind = kind ∧ a.name = nameOf item)
    (h : items.mapM print = .ok artifacts) (wanted : ArtifactKind) (name : String) :
    artifacts.countP (Artifact.isFor wanted name) =
      if wanted = kind then (items.map nameOf).count name else 0 := by
  have hall := Outcome.forall₂_of_mapM h
  clear h
  induction hall with
  | nil => simp
  | @cons item a items artifacts ha _ ih =>
    obtain ⟨hkind, hname⟩ := hprint item a ha
    rw [List.countP_cons, ih, List.map_cons, List.count_cons]
    by_cases hw : wanted = kind
    · simp [hw, Artifact.isFor, hkind, hname]
    · have hne : kind ≠ wanted := fun h => hw h.symm
      simp [hw, Artifact.isFor, hkind, hne]

namespace Generation

theorem Rendered.countP_isFor {signatures : Table String Signature} {resources : List Resource}
    {t : TypeTables} {d : Dialect} {artifacts : List Artifact} (ht : TypeTables.Linked contract t)
    (h : Rendered signatures settings (modelOf resources t) d artifacts)
    (name : String) :
    (name ∈ Table.keys t.beans → artifacts.countP (Artifact.isFor .bean name) = 1) ∧
      (name ∈ Table.keys t.enums → artifacts.countP (Artifact.isFor .enum name) = 1) := by
  obtain ⟨rs, bs, es, hrs, hbs, hes, rfl⟩ := h
  have hresources := ApiContract.countP_isFor (fun _ _ => Artifact.ofResource_eq_ok) hrs
  have hbeans := ApiContract.countP_isFor (fun _ _ => Artifact.ofBean_eq_ok) hbs
  have henums := ApiContract.countP_isFor (fun _ _ => Artifact.ofEnum_eq_ok) hes
  have hbeanNames : (modelOf resources t).beans.map Bean.name = Table.keys t.beans :=
    Table.map_values ht.beanNames
  have henumNames : (modelOf resources t).enums.map EnumType.name = Table.keys t.enums :=
    Table.map_values ht.enumNames
  simp only [List.countP_append, hresources, hbeans, henums, hbeanNames, henumNames]
  constructor
  · intro hn
    simp [List.count_eq_one_of_mem ht.beansApart hn]
  · intro hn
    simp [List.count_eq_one_of_mem ht.enumsApart hn]

/-- The types in what is emitted: those of the fields of beans, and those of the
parameters of methods and of what they return in a dialect. -/
inductive Mentions (signatures : Table String Signature) (model : Model) (d : Dialect) :
    TypeRef → Prop
  | field {bean : Bean} {f : BeanField} (emitted : bean ∈ model.beans) (member : f ∈ bean.fields) :
      Mentions signatures model d f.type
  | parameter {resource : Resource} {e : Endpoint} {s : Signature} {b : Binding}
      (emitted : resource ∈ model.resources) (method : e ∈ resource.endpoints)
      (signed : Table.get? signatures e.operation.label = some s) (member : b ∈ s.parameters) :
      Mentions signatures model d b.type
  | returned {resource : Resource} {e : Endpoint} {s : Signature}
      (emitted : resource ∈ model.resources) (method : e ∈ resource.endpoints)
      (signed : Table.get? signatures e.operation.label = some s) :
      Mentions signatures model d (s.returnTypeFor d)

theorem Mentions.resolved {w : Workspace} (hw : w.Linked contract) {resources : List Resource}
    {d : Dialect} {type : TypeRef}
    (h : Mentions w.signatures (modelOf resources w.tables) d type) :
    Resolved contract w.tables type := by
  cases h with
  | field emitted member =>
    obtain ⟨e, he, rfl⟩ := Table.mem_values.mp emitted
    exact hw.tables.fields e he _ member
  | parameter _ _ signed member =>
    exact (hw.signatures _ (Table.mem_of_get? signed)).parameters _ member
  | returned _ _ signed => exact (hw.signatures _ (Table.mem_of_get? signed)).returnTypeFor d

/-- What is emitted is printed for each dialect, and each bean and each enum that its
types mention is printed once there and is not the type of a failed component. -/
structure SelfContained (settings : Settings) (built : TypeTables) (resources : List Resource)
    (g : Generated) (w : Workspace) : Prop where
  rendered : RenderedEach w.signatures settings (modelOf resources w.tables) settings.dialects
    g.artifacts
  once : ∀ entry ∈ g.artifacts, ∀ d type,
    Mentions w.signatures (modelOf resources w.tables) d type →
    ∀ node ∈ type.nodes,
    (node.kind = .bean → entry.2.countP (Artifact.isFor .bean node.name) = 1) ∧
      (node.kind = .enum → entry.2.countP (Artifact.isFor .enum node.name) = 1)
  sound : ∀ d type, Mentions w.signatures (modelOf resources w.tables) d type →
    ∀ node ∈ type.nodes, node.kind = .bean ∨ node.kind = .enum →
    ∀ c ∈ Table.keys built.failed, Table.get? built.typeNames c ≠ some node.name

theorem linked_of_stages {g : Generated} {w : Workspace} {ds : List Diagnostic}
    {built signed : Workspace} {final : Grouping.Grouped}
    (h : Stages contract settings (.fresh contract) g w ds built final signed) :
    built.tables.Reaches w.tables ∧ w.Linked contract := by
  have hbuilt := Workspace.linked_of_buildTables h.building
  obtain ⟨grouped, v, refused, -, hvt, hvs, hattempts, -⟩ :=
    Signature.resolveResources_eq_ok h.signing
  have hv : v.Linked contract :=
    { tables := hvt ▸ hbuilt.tables, kept := hvt ▸ hbuilt.kept
      signatures := by rw [hvt, hvs]; exact hbuilt.signatures }
  obtain ⟨hr, hsigned⟩ := hattempts.linked hv
  refine ⟨hvt ▸ h.tables ▸ hr, ?_⟩
  exact
    { tables := h.tables ▸ hsigned.tables, kept := h.tables ▸ hsigned.kept
      signatures := by rw [h.tables, h.signatures]; exact hsigned.signatures }

/-- Every bean and enum that an emitted type mentions, at any depth, is an emitted class,
exactly one for each dialect, and none of them stands for a component that failed. -/
theorem references_generated {document : Tree} {g : Generated} {w : Workspace}
    (h : generate document settings = .ok g w) :
    ∃ contract ds built final signed, Contract.ofTree document = .ok contract ∧
      Types.buildTables contract (.fresh contract) = .ok ds built ∧
      Signature.resolveResources contract settings built = .ok final signed ∧
      SelfContained settings built.tables final.resources g w := by
  unfold generate at h
  cases hcontract : Contract.ofTree document with
  | error failure => simp [hcontract] at h
  | ok contract =>
    simp only [hcontract] at h
    obtain ⟨ds, built, final, signed, hstages⟩ := exists_stages h
    obtain ⟨hreaches, hw⟩ := linked_of_stages hstages
    refine ⟨contract, ds, built, final, signed, rfl, hstages.building, hstages.signing,
      hstages.rendered, ?_, ?_⟩
    · intro entry hentry d type hmentions node hnode
      obtain ⟨d', -, -, hrendered⟩ := hstages.rendered.rendered entry hentry
      obtain ⟨hbeans, henums⟩ := hrendered.countP_isFor hw.tables node.name
      have hknown := hmentions.resolved hw node hnode
      exact ⟨fun hk => hbeans ((hknown.bean hk).elim id (hw.kept.beans _)),
        fun hk => henums ((hknown.enum hk).elim id (hw.kept.enums _))⟩
    · intro d type hmentions node hnode hk c hc
      have hknown := hmentions.resolved hw node hnode
      have hentry : node.name ∈ w.tables.entryNames := by
        rcases hk with hk | hk
        · exact List.mem_append_left _ ((hknown.bean hk).elim id (hw.kept.beans _))
        · exact List.mem_append_right _ ((hknown.enum hk).elim id (hw.kept.enums _))
      rw [← hreaches.typeNames]
      exact hw.tables.sound node.name hentry c (hreaches.failed ▸ hc)

/-- A document with a component that refers to another, one of an unsupported form, and
an operation for each of the latter two. -/
def ownersDocument : Tree :=
  .map [
    (.text "openapi", .text "3.0.0"),
    (.text "components", .map [(.text "schemas", .map [
      (.text "Owner", .map [(.text "properties", .map [
        (.text "pets", .map [(.text "type", .text "array"),
          (.text "items", .map [(.text "$ref", .text "#/components/schemas/Pet")])])])]),
      (.text "Pet", .map [(.text "properties", .map [
        (.text "size", .map [(.text "enum", .list [.text "small", .text "large"])])])]),
      (.text "Shape", .map [(.text "oneOf", .list [])])])]),
    (.text "paths", .map [
      (.text "/owners", .map [(.text "get", .map [(.text "responses", .map [
        (.text "200", .map [(.text "content", .map [(.text "application/json", .map [
          (.text "schema", .map [(.text "$ref", .text "#/components/schemas/Owner")])])])])])])]),
      (.text "/shapes", .map [(.text "get", .map [(.text "responses", .map [
        (.text "200", .map [(.text "content", .map [(.text "application/json", .map [
          (.text "schema",
            .map [(.text "$ref", .text "#/components/schemas/Shape")])])])])])])])])]

theorem references_generated_owners :
    ∃ g w, generate ownersDocument {} = .ok g w ∧
      g.all.map Artifact.name = ["OwnersResource", "Owner", "Pet", "PetSize"] ∧
      ∃ contract ds built final signed, Contract.ofTree ownersDocument = .ok contract ∧
        Types.buildTables contract (.fresh contract) = .ok ds built ∧
        Signature.resolveResources contract {} built = .ok final signed ∧
        SelfContained {} built.tables final.resources g w := by
  obtain ⟨g, w, h, hnames⟩ := Step.exists_of_outcome (r := generate ownersDocument {})
    (f := fun g => g.all.map Artifact.name) (b := ["OwnersResource", "Owner", "Pet", "PetSize"])
    (by decide +kernel)
  exact ⟨g, w, h, hnames, references_generated h⟩

end Generation

end ApiContract
