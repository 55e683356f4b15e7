import ApiContract.Proofs.Run.Paths
import ApiContract.Proofs.Source.Imports

/-! # Imports and simple names

Generated types are named apart from each other, and the classes of the libraries are apart
from each other as well, but nothing keeps the two apart, and a type from outside has any
name. So a simple name stands for two classes of a unit just where a generated class has the
name of a class of a library, where a class of one unit has the name of what it imports, or
where the contract itself names a type.
-/
namespace ApiContract

open TypeTables

variable {contract : Contract} {settings : Settings}

namespace Source

/-- In an interface two imports of one simple name are the same, but for types from outside
and for generated types with the name of a class of the library. No import has the name of
the interface, but for types from outside and a generated type of another package. -/
structure InterfaceNames (settings : Settings) (entries : List String) (d : Dialect)
    (types : List TypeRef) (unit : ResourceUnit) : Prop where
  apart : ∀ i ∈ unit.imports, ∀ j ∈ unit.imports, simpleName i = simpleName j →
    i = j ∨ TypeRef.external i ∈ types.flatMap TypeRef.nodes ∨
      TypeRef.external j ∈ types.flatMap TypeRef.nodes ∨
      Shadows (resourceLibrary d) settings entries i j ∨
      Shadows (resourceLibrary d) settings entries j i
  own : ∀ i ∈ unit.imports, simpleName i = unit.name →
    TypeRef.external i ∈ types.flatMap TypeRef.nodes ∨
      (unit.name ∈ entries ∧ i = settings.beanPackage ++ "." ++ unit.name ∧
        settings.beanPackage ≠ settings.javaPackage)

/-- In a bean, which imports no generated type, two imports of one simple name are the same,
but for types from outside. No import has the name of the bean, but for types from outside
and for the classes of the library. -/
structure BeanNames (types : List TypeRef) (unit : BeanUnit) : Prop where
  apart : ∀ i ∈ unit.imports, ∀ j ∈ unit.imports, simpleName i = simpleName j →
    i = j ∨ TypeRef.external i ∈ types.flatMap TypeRef.nodes ∨
      TypeRef.external j ∈ types.flatMap TypeRef.nodes
  own : ∀ i ∈ unit.imports, simpleName i = unit.name →
    TypeRef.external i ∈ types.flatMap TypeRef.nodes ∨ i ∈ beanLibrary

variable {entries : List String}

theorem not_suffix_resourceLibrary {d : Dialect} (h : d ∈ Dialect.known) :
    ∀ q ∈ resourceLibrary d, ¬"Resource".toList <:+ (simpleName q).toList := by
  have hall : ∀ d ∈ Dialect.known, ∀ q ∈ resourceLibrary d,
      ¬"Resource".toList <:+ (simpleName q).toList := by decide +kernel
  exact hall d h

theorem interfaceNames_of_resourceUnit {signatures : Table String Signature} {d : Dialect}
    {resource : Resource} {unit : ResourceUnit} (hd : d ∈ Dialect.known)
    (hq : ∀ type ∈ resourceTypes signatures d resource, type.Qualified)
    (hlisted : ListedNames entries ((resourceTypes signatures d resource).flatMap TypeRef.nodes))
    (hname : "Resource".toList <:+ resource.name.toList)
    (h : resourceUnit signatures d settings resource = .ok unit) :
    InterfaceNames settings entries d (resourceTypes signatures d resource) unit := by
  have hunit := (parts_of_resourceUnit h).1
  have horigin := origin_of_resourceUnit hq h
  constructor
  · intro i hi j hj hsimple
    exact eq_or_clash (nodup_simpleNames_resourceLibrary hd) hlisted (horigin i hi).2
      (horigin j hj).2 hsimple
  · intro i hi hsimple
    obtain ⟨himported, hfrom⟩ := horigin i hi
    cases hfrom with
    | fixed member =>
      refine absurd ?_ (not_suffix_resourceLibrary hd i member)
      rwa [hsimple, hunit]
    | @generated node part kind =>
      have hentry := hlisted.known node part kind
      rw [simpleName_below (hlisted.words _ hentry)] at hsimple
      rw [isImported, packageOf_below (hlisted.words _ hentry), Bool.and_eq_true, bne_iff_ne]
        at himported
      exact Or.inr ⟨hsimple ▸ hentry, by rw [hsimple], himported.1⟩
    | given part => exact Or.inl part

/-- The generated types are those of the package of the bean, which it does not import. -/
theorem beanNames_of_beanUnit {bean : Bean} {unit : BeanUnit}
    (hq : ∀ type ∈ beanTypes bean, type.Qualified)
    (hlisted : ListedNames entries ((beanTypes bean).flatMap TypeRef.nodes))
    (h : beanUnit settings bean = .ok unit) : BeanNames (beanTypes bean) unit := by
  have horigin := origin_of_beanUnit hq h
  have hforeign : ∀ i ∈ unit.imports, ∀ n ∈ entries, i ≠ settings.beanPackage ++ "." ++ n := by
    rintro i hi n hn rfl
    have himported := (horigin _ hi).1
    rw [isImported, packageOf_below (hlisted.words n hn)] at himported
    simp at himported
  constructor
  · intro i hi j hj hsimple
    rcases eq_or_clash nodup_simpleNames_beanLibrary hlisted (horigin i hi).2 (horigin j hj).2
      hsimple with he | he | he | ⟨n, hn, he, -⟩ | ⟨n, hn, he, -⟩
    · exact Or.inl he
    · exact Or.inr (Or.inl he)
    · exact Or.inr (Or.inr he)
    · exact absurd he (hforeign i hi n hn)
    · exact absurd he (hforeign j hj n hn)
  · intro i hi hsimple
    cases (horigin i hi).2 with
    | fixed member => exact Or.inr member
    | @generated node part kind =>
      exact absurd rfl (hforeign _ hi node.name (hlisted.known node part kind))
    | given part => exact Or.inl part

end Source

namespace Generation

open Source

/-- At the end of a run the types of all beans and signatures are qualified. -/
theorem qualified_of_stages {g : Generated} {w : Workspace} {ds : List Diagnostic}
    {built signed : Workspace} {final : Grouping.Grouped}
    (h : Stages contract settings (.fresh contract) g w ds built final signed) :
    w.tables.Holding TypeRef.Qualified ∧ ∀ e ∈ w.signatures, e.2.Qualified := by
  have hreset : (Workspace.fresh contract).tables.Holding TypeRef.Qualified := by
    exact (blank_reset {} contract).holding
  have hbuild : Step.Retains TypeRef.Qualified (Types.buildTables contract) :=
    Types.retains_buildTables TypeRef.made_qualified
  have hbuilt := (hbuild (.fresh contract) hreset).2
  rw [h.building] at hbuilt
  have hnone := (Types.buildTables_of Step.KeepsSignatures.uniform).of_ok h.building
  obtain ⟨es, v, refused, hv, hs, hattempts⟩ := h.exists_attempts
  rw [h.tables, h.signatures]
  exact hattempts.yields Signature.qualified_resolve (hv ▸ hbuilt)
    (by simp [hs, hnone, Workspace.fresh])

theorem listed_of_stages {g : Generated} {w : Workspace} {ds : List Diagnostic}
    {built signed : Workspace} {final : Grouping.Grouped}
    (h : Stages contract settings (.fresh contract) g w ds built final signed)
    {types : List TypeRef} (hresolved : ∀ type ∈ types, Resolved contract w.tables type) :
    ListedNames w.tables.entryNames (types.flatMap TypeRef.nodes) := by
  have hlinked := (linked_of_stages h).2
  refine ⟨fun node hnode kind => ?_, fun n hn hpoint => ?_⟩
  · obtain ⟨type, htype, hnode⟩ := List.mem_flatMap.mp hnode
    have hknown := hresolved type htype node hnode
    rcases kind with kind | kind
    · exact List.mem_append_left _ ((hknown.bean kind).elim id (hlinked.kept.beans _))
    · exact List.mem_append_right _ ((hknown.enum kind).elim id (hlinked.kept.enums _))
  · have hpart := (worded_of_stages h n (hlinked.tables.reserved n hn)).parts '.' hpoint
    revert hpart
    decide

theorem Rendered.exists_resource {signatures : Table String Signature} {model : Model}
    {d : Dialect} {artifacts : List Artifact} (h : Rendered signatures settings model d artifacts)
    {a : Artifact} (ha : a ∈ artifacts) (hkind : a.kind = .resource) :
    ∃ resource ∈ model.resources, ∃ unit,
      resourceUnit signatures d settings resource = .ok unit ∧
        a.name = resource.name ∧ a.body = unit.print := by
  obtain ⟨rs, bs, es, hrs, hbs, hes, rfl⟩ := h
  rw [List.mem_append, List.mem_append] at ha
  rcases ha with (ha | ha) | ha
  · obtain ⟨resource, hresource, hprint⟩ := Outcome.exists_of_mem_mapM hrs ha
    obtain ⟨unit, hunit, hprint⟩ := Outcome.bind_eq_ok.mp hprint
    cases hprint
    exact ⟨resource, hresource, unit, hunit, rfl, rfl⟩
  · obtain ⟨bean, -, hprint⟩ := Outcome.exists_of_mem_mapM hbs ha
    cases hkind.symm.trans (Artifact.ofBean_eq_ok hprint).1
  · obtain ⟨enum, -, hprint⟩ := Outcome.exists_of_mem_mapM hes ha
    cases hkind.symm.trans (Artifact.ofEnum_eq_ok hprint).1

theorem Rendered.exists_bean {signatures : Table String Signature} {model : Model}
    {d : Dialect} {artifacts : List Artifact} (h : Rendered signatures settings model d artifacts)
    {a : Artifact} (ha : a ∈ artifacts) (hkind : a.kind = .bean) :
    ∃ bean ∈ model.beans, ∃ unit, beanUnit settings bean = .ok unit ∧
      a.name = bean.name ∧ a.body = unit.print := by
  obtain ⟨rs, bs, es, hrs, hbs, hes, rfl⟩ := h
  rw [List.mem_append, List.mem_append] at ha
  rcases ha with (ha | ha) | ha
  · obtain ⟨resource, -, hprint⟩ := Outcome.exists_of_mem_mapM hrs ha
    cases hkind.symm.trans (Artifact.ofResource_eq_ok hprint).1
  · obtain ⟨bean, hbean, hprint⟩ := Outcome.exists_of_mem_mapM hbs ha
    obtain ⟨unit, hunit, hprint⟩ := Outcome.bind_eq_ok.mp hprint
    cases hprint
    exact ⟨bean, hbean, unit, hunit, rfl, rfl⟩
  · obtain ⟨enum, -, hprint⟩ := Outcome.exists_of_mem_mapM hes ha
    cases hkind.symm.trans (Artifact.ofEnum_eq_ok hprint).1

/-- An artifact whose unit has the simple names of its imports apart, as far as they are. -/
structure ImportsApart (settings : Settings) (w : Workspace) (a : Artifact) : Prop where
  interface : a.kind = .resource → ∃ d ∈ settings.dialects, ∃ resource unit,
    resourceUnit w.signatures d settings resource = .ok unit ∧
      a.name = unit.name ∧ a.body = unit.print ∧
      InterfaceNames settings w.tables.entryNames d (resourceTypes w.signatures d resource) unit
  bean : a.kind = .bean → ∃ bean ∈ Table.values w.tables.beans, ∃ unit,
    beanUnit settings bean = .ok unit ∧ a.name = unit.name ∧ a.body = unit.print ∧
      BeanNames (beanTypes bean) unit

theorem interface_of_stages (accepted : settings.Accepted) {g : Generated} {w : Workspace}
    {ds : List Diagnostic} {built signed : Workspace} {final : Grouping.Grouped}
    (h : Stages contract settings (.fresh contract) g w ds built final signed)
    {d : Dialect} (hd : d ∈ settings.dialects) {resource : Resource} {unit : ResourceUnit}
    (hresource : resource ∈ final.resources)
    (hunit : resourceUnit w.signatures d settings resource = .ok unit) :
    InterfaceNames settings w.tables.entryNames d (resourceTypes w.signatures d resource) unit := by
  have hqualified := (qualified_of_stages h).2
  have hlinked := (linked_of_stages h).2
  have htype : ∀ type ∈ resourceTypes w.signatures d resource,
      type.Qualified ∧ Resolved contract w.tables type := by
    intro type htype
    obtain ⟨e, he, htype⟩ := List.mem_flatMap.mp htype
    split at htype
    · next s hs =>
      have hmem := Table.mem_of_get? hs
      rcases List.mem_append.mp htype with htype | htype
      · obtain ⟨b, hb, rfl⟩ := List.mem_map.mp htype
        exact ⟨(hqualified _ hmem).parameters b hb, (hlinked.signatures _ hmem).parameters b hb⟩
      · rw [List.mem_singleton.mp htype]
        exact ⟨(hqualified _ hmem).returnTypeFor d, (hlinked.signatures _ hmem).returnTypeFor d⟩
    · cases htype
  exact interfaceNames_of_resourceUnit (accepted.known d hd) (fun type ht => (htype type ht).1)
    (listed_of_stages h fun type ht => (htype type ht).2)
    (Signature.suffix_resolveResources h.signing resource hresource) hunit

theorem bean_of_stages {g : Generated} {w : Workspace} {ds : List Diagnostic}
    {built signed : Workspace} {final : Grouping.Grouped}
    (h : Stages contract settings (.fresh contract) g w ds built final signed)
    {bean : Bean} {unit : BeanUnit} (hbean : bean ∈ Table.values w.tables.beans)
    (hunit : beanUnit settings bean = .ok unit) : BeanNames (beanTypes bean) unit := by
  have hqualified := (qualified_of_stages h).1
  have hlinked := (linked_of_stages h).2
  obtain ⟨e, he, rfl⟩ := Table.mem_values.mp hbean
  have htype : ∀ type ∈ beanTypes e.2, type.Qualified ∧ Resolved contract w.tables type := by
    intro type htype
    obtain ⟨f, hf, rfl⟩ := List.mem_map.mp htype
    exact ⟨hqualified.fields e he f hf, hlinked.tables.fields e he f hf⟩
  exact beanNames_of_beanUnit (fun type ht => (htype type ht).1)
    (listed_of_stages h fun type ht => (htype type ht).2) hunit

/-- In every interface and every bean that is emitted, a simple name stands for one class
unless the contract named one of the classes itself, or a generated class has the name of a
class of the library, of the interface in another package, or of what the bean imports. -/
theorem imports_of_generate {document : Tree} (accepted : settings.Accepted) {g : Generated}
    {w : Workspace} (h : generate document settings = .ok g w) :
    ∀ a ∈ g.all, ImportsApart settings w a := by
  unfold generate at h
  cases hcontract : Contract.ofTree document with
  | error failure => simp [hcontract] at h
  | ok contract =>
    simp only [hcontract] at h
    obtain ⟨ds, built, final, signed, hstages⟩ := exists_stages h
    intro a ha
    obtain ⟨entry, hentry, ha⟩ := Printed.mem_all.mp ha
    obtain ⟨d, hd, -, hrendered⟩ := hstages.rendered.rendered entry hentry
    constructor
    · intro hkind
      obtain ⟨resource, hresource, unit, hunit, hname, hbody⟩ :=
        hrendered.exists_resource ha hkind
      have hnames := interface_of_stages accepted hstages hd hresource hunit
      exact ⟨d, hd, resource, unit, hunit, hname.trans (parts_of_resourceUnit hunit).1.symm, hbody,
        hnames⟩
    · intro hkind
      obtain ⟨bean, hbean, unit, hunit, hname, hbody⟩ := hrendered.exists_bean ha hkind
      have hnames := bean_of_stages hstages hbean hunit
      exact ⟨bean, hbean, unit, hunit, hname.trans (parts_of_beanUnit hunit).1.symm, hbody, hnames⟩

theorem imports_of_generate_owners :
    ∃ g w, Settings.Accepted {} ∧ generate ownersDocument {} = .ok g w ∧
      g.all.map (fun a => (a.kind, a.name)) =
        [(.resource, "OwnersResource"), (.bean, "Owner"), (.bean, "Pet"), (.enum, "PetSize")] ∧
      ∀ a ∈ g.all, ImportsApart {} w a := by
  obtain ⟨g, w, h, hnames⟩ := Step.exists_of_outcome (r := generate ownersDocument {})
    (f := fun g => g.all.map fun a => (a.kind, a.name))
    (b := [(.resource, "OwnersResource"), (.bean, "Owner"), (.bean, "Pet"), (.enum, "PetSize")])
    (by decide +kernel)
  exact ⟨g, w, Settings.accepted_default, h, hnames,
    imports_of_generate Settings.accepted_default h⟩

/-- A document with an object that is named like the class for lists and refers to a list of
itself, and an operation that returns a list of it. -/
def listsDocument : Tree :=
  .map [
    (.text "openapi", .text "3.0.0"),
    (.text "info", .map [(.text "title", .text "Test"), (.text "version", .text "1")]),
    (.text "paths", .map [(.text "/lists", .map [(.text "get", .map [(.text "responses", .map [
      (.text "200", .map [(.text "description", .text "ok"),
        (.text "content", .map [(.text "application/json", .map [
          (.text "schema", .map [(.text "type", .text "array"),
            (.text "items", .map [(.text "$ref",
              .text "#/components/schemas/List")])])])])])])])])]),
    (.text "components", .map [(.text "schemas", .map [
      (.text "List", .map [
        (.text "type", .text "object"),
        (.text "properties", .map [(.text "next", .map [(.text "type", .text "array"),
          (.text "items", .map [(.text "$ref", .text "#/components/schemas/List")])])])])])])]

/-- The names that all interfaces and all beans need, printed from fresh tables. -/
def needsOf (contract : Contract) (settings : Settings) (d : Dialect) :
    Step (List (List String) × List (List String)) := do
  let _ ← Types.buildTables contract
  let final ← Signature.resolveResources contract settings
  let w ← get
  let interfaces ← Step.lift (final.resources.mapM (resourceNeeds w.signatures d settings))
  let beans ← Step.lift ((Table.values w.tables.beans).mapM (beanNeeds settings))
  pure (interfaces, beans)

theorem needsOf_eq_ok {g : Generated} {w : Workspace} {ds : List Diagnostic}
    {built signed : Workspace} {final : Grouping.Grouped}
    (h : Stages contract settings (.fresh contract) g w ds built final signed) {d : Dialect}
    {interfaces beans : List (List String)} {v : Workspace}
    (hneeds : needsOf contract settings d (.fresh contract) = .ok (interfaces, beans) v) :
    final.resources.mapM (resourceNeeds w.signatures d settings) = .ok interfaces ∧
      (Table.values w.tables.beans).mapM (beanNeeds settings) = .ok beans := by
  obtain ⟨ds', built', hbuilt, hneeds⟩ := Step.bind_eq_ok.mp hneeds
  cases h.building.symm.trans hbuilt
  obtain ⟨final', signed', hsigned, hneeds⟩ := Step.bind_eq_ok.mp hneeds
  cases h.signing.symm.trans hsigned
  obtain ⟨_, u, hget, hneeds⟩ := Step.bind_eq_ok.mp hneeds
  cases hget
  obtain ⟨first, u, hlift, hneeds⟩ := Step.bind_eq_ok.mp hneeds
  obtain ⟨hfirst, rfl⟩ := Step.lift_eq_ok.mp hlift
  obtain ⟨second, u, hlift, hneeds⟩ := Step.bind_eq_ok.mp hneeds
  obtain ⟨hsecond, rfl⟩ := Step.lift_eq_ok.mp hlift
  cases hneeds
  exact ⟨h.signatures ▸ hfirst, h.tables ▸ hsecond⟩

def listsNeeds : List (List String) × List (List String) :=
  ([["jakarta.ws.rs.Path", "jakarta.ws.rs.GET", "jakarta.ws.rs.Produces", "java.util.List",
      "org.example.api.beans.List"]],
    [beanAnnotations ++ ["java.util.List", "org.example.api.beans.List"]])

/-- The interface imports two classes by one simple name, and the bean a class that is called
as it is itself. -/
theorem imports_clash :
    ∃ g w, Settings.Accepted {} ∧ generate listsDocument {} = .ok g w ∧ g.ok = true ∧
      (∃ a ∈ g.all, ∃ resource unit, resourceUnit w.signatures .jaxrs {} resource = .ok unit ∧
        a.body = unit.print ∧ "java.util.List" ∈ unit.imports ∧
        "org.example.api.beans.List" ∈ unit.imports ∧
        simpleName "java.util.List" = simpleName "org.example.api.beans.List") ∧
      ∃ a ∈ g.all, ∃ bean unit, beanUnit {} bean = .ok unit ∧ a.body = unit.print ∧
        a.name = unit.name ∧ "java.util.List" ∈ unit.imports ∧
        simpleName "java.util.List" = unit.name := by
  obtain ⟨contract, parsed, hc⟩ := Outcome.exists_of_map_toOption
    (o := Contract.ofTree listsDocument)
    (f := fun c => (Step.outcome (needsOf c {} .jaxrs (.fresh c))).1.toOption)
    (b := some listsNeeds) (by decide +kernel)
  obtain ⟨_, v, hv, rfl⟩ :=
    Step.exists_of_outcome (r := needsOf contract {} .jaxrs (.fresh contract))
    (f := fun i => i) (b := listsNeeds) (by rw [Option.map_id']; exact hc)
  obtain ⟨g, w, h, hg⟩ := Step.exists_of_outcome (r := generate listsDocument {})
    (f := fun g => (g.ok, g.all.map fun a => (a.kind, a.name)))
    (b := (true, [(.resource, "ListsResource"), (.bean, "List")])) (by decide +kernel)
  obtain ⟨hok, hall⟩ := Prod.mk.inj hg
  have hfound : ∀ n ∈ [(ArtifactKind.resource, "ListsResource"), (.bean, "List")],
      ∃ a ∈ g.all, (a.kind, a.name) = n := fun n hn => List.mem_map.mp (hall ▸ hn)
  have hrun := h
  simp only [generate, parsed] at hrun
  obtain ⟨ds, built, final, signed, hstages⟩ := exists_stages hrun
  obtain ⟨hresources, hbeans⟩ := needsOf_eq_ok hstages hv
  refine ⟨g, w, Settings.accepted_default, h, hok, ?_, ?_⟩
  · obtain ⟨a, ha, hkind⟩ := hfound (.resource, "ListsResource") (by simp)
    obtain ⟨hkind, -⟩ := Prod.mk.inj hkind
    obtain ⟨entry, hentry, hmem⟩ := Printed.mem_all.mp ha
    obtain ⟨d, hd, -, hrendered⟩ := hstages.rendered.rendered entry hentry
    obtain rfl : d = .jaxrs := List.mem_singleton.mp hd
    obtain ⟨resource, hresource, unit, hunit, -, hbody⟩ := hrendered.exists_resource hmem hkind
    obtain ⟨-, needs, hneeds, himports⟩ := parts_of_resourceUnit hunit
    obtain rfl := List.mem_singleton.mp (Outcome.mem_of_mapM hresources hresource hneeds)
    refine ⟨a, ha, resource, unit, hunit, hbody, ?_, ?_, by decide⟩
    · exact himports ▸ mem_importList.mpr (by decide)
    · exact himports ▸ mem_importList.mpr (by decide)
  · obtain ⟨a, ha, hkind⟩ := hfound (.bean, "List") (by simp)
    obtain ⟨hkind, hlist⟩ := Prod.mk.inj hkind
    obtain ⟨entry, hentry, hmem⟩ := Printed.mem_all.mp ha
    obtain ⟨d, -, -, hrendered⟩ := hstages.rendered.rendered entry hentry
    obtain ⟨bean, hbean, unit, hunit, hname, hbody⟩ := hrendered.exists_bean hmem hkind
    obtain ⟨hunitName, needs, hneeds, himports⟩ := parts_of_beanUnit hunit
    obtain rfl := List.mem_singleton.mp (Outcome.mem_of_mapM hbeans hbean hneeds)
    refine ⟨a, ha, bean, unit, hunit, hbody, hname.trans hunitName.symm, ?_, ?_⟩
    · exact himports ▸ mem_importList.mpr (by decide)
    · rw [hunitName, ← hname, hlist]
      decide

end Generation

end ApiContract
