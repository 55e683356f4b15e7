import ApiContract.Proofs.Types.Mapping
import ApiContract.Types.Components

/-! # What a successful mapping did

A reference, a node or a component that was mapped went through exactly one of its
cases, and the workspace after it is the one that this case leaves. The cases are
relations with a name for each, so that what a mapping guarantees is proved case by
case, without opening the steps again.
-/
namespace ApiContract

namespace Schema

def isObject : Schema → Bool
  | object .. => true
  | _ => false

def isEnumeration : Schema → Bool
  | enumeration .. => true
  | _ => false

end Schema

namespace Types

open TypeTables

variable {contract : Contract} {map : Mapping}

def beanOf (name : String) (schema : Schema) (fields : List BeanField) : Bean :=
  { name, fields, description := schema.description, location := schema.location }

def withBean (t : TypeTables) (bean : Bean) : TypeTables :=
  { t with beans := Table.put t.beans bean.name bean }

def enumOf (name : String) (schema : Schema) (values : List Tree) : EnumType :=
  { name, values, description := schema.description, location := schema.location }

def withEnum (t : TypeTables) (enum : EnumType) : TypeTables :=
  { t with enums := Table.put t.enums enum.name enum }

theorem buildBean_eq_ok {name : String} {schema : Schema} {w w' : Workspace}
    (h : buildBean contract map name schema w = .ok () w') :
    ∃ merged fields v, Merged.ofSchema contract schema = .ok merged ∧
      merged.properties.mapM (beanField map name merged.required) w = .ok fields v ∧
      w'.tables = withBean v.tables (beanOf name schema fields) := by
  obtain ⟨merged, v, hlift, h⟩ := Step.bind_eq_ok.mp h
  obtain ⟨hmerged, rfl⟩ := Step.lift_eq_ok.mp hlift
  obtain ⟨fields, v, hfields, h⟩ := Step.bind_eq_ok.mp h
  cases h
  exact ⟨merged, fields, v, hmerged, hfields, rfl⟩

theorem buildEnum_eq_ok {name : String} {schema : Schema} {values : List Tree}
    {w w' : Workspace} (h : buildEnum name schema values w = .ok () w') :
    w'.tables = withEnum w.tables (enumOf name schema values) := by
  cases h
  rfl

/-- A bean that fails has added the types of some of its fields only. -/
theorem grows_of_buildBean_eq_error (hmap : Growing map) {name : String} {schema : Schema}
    {w w' : Workspace} {e : Failure} (h : buildBean contract map name schema w = .error e w') :
    w.tables.Grows w'.tables := by
  rcases Step.bind_eq_error.mp h with h | ⟨merged, v, hm, h⟩
  · rw [(Step.lift_eq_error.mp h).2]
    exact Grows.refl _
  · obtain ⟨-, rfl⟩ := Step.lift_eq_ok.mp hm
    rcases Step.bind_eq_error.mp h with h | ⟨fields, v, -, h⟩
    · exact (keeps_beanFields hmap name merged.required merged.properties).of_error h
    · cases h

/-- The case by which a reference to a component got its type. -/
inductive Referred (contract : Contract) (map : Mapping) (component : String) (w : Workspace) :
    TypeRef → Workspace → Prop
  | external {schema : Schema} {qualified : String}
      (found : contract.schema? component = some schema) (external : schema.isExternal = true) :
      Referred contract map component w (.external qualified) w
  | bean {schema : Schema} {javaName : String} (found : contract.schema? component = some schema)
      (own : schema.isExternal = false) (object : schema.isObject = true)
      (named : Table.get? w.tables.typeNames component = some javaName) :
      Referred contract map component w (.bean javaName) w
  | enum {schema : Schema} {javaName : String} (found : contract.schema? component = some schema)
      (own : schema.isExternal = false) (enumeration : schema.isEnumeration = true)
      (named : Table.get? w.tables.typeNames component = some javaName) :
      Referred contract map component w (.enum javaName) w
  | aliased {schema : Schema} {javaName location : String} {type : TypeRef} {w' : Workspace}
      (found : contract.schema? component = some schema)
      (resolved : resolveAlias map component javaName location schema w = .ok type w') :
      Referred contract map component w type w'

theorem externalType_eq_ok {name : Tree} {type : TypeRef} {w w' : Workspace}
    (h : externalType name w = .ok type w') : w = w' ∧ ∃ qualified, type = .external qualified := by
  obtain ⟨hname, rfl⟩ := Step.lift_eq_ok.mp h
  obtain ⟨qualified, -, rfl⟩ := Outcome.map_eq_ok.mp hname
  exact ⟨rfl, qualified, rfl⟩

theorem referred_of_eq_ok {component location : String} {type : TypeRef} {w w' : Workspace}
    (h : referenceWith contract map component location w = .ok type w') :
    component ∉ Table.keys w.tables.failed ∧ Referred contract map component w type w' := by
  obtain ⟨t, v, ht, h⟩ := Step.bind_eq_ok.mp h
  cases ht
  cases hfailed : Table.get? w.tables.failed component with
  | some fault => simp [hfailed] at h
  | none =>
    refine ⟨Table.get?_eq_none_iff.mp hfailed, ?_⟩
    simp only [hfailed] at h
    obtain ⟨schema, v, hlift, h⟩ := Step.bind_eq_ok.mp h
    obtain ⟨hs, rfl⟩ := Step.lift_eq_ok.mp hlift
    obtain ⟨javaName, v, hlift, h⟩ := Step.bind_eq_ok.mp h
    obtain ⟨hn, rfl⟩ := Step.lift_eq_ok.mp hlift
    have hfound := Outcome.need_eq_ok.mp hs
    have hnamed := Outcome.need_eq_ok.mp hn
    by_cases hx : schema.isExternal = true
    · rw [if_pos hx] at h
      obtain ⟨rfl, qualified, rfl⟩ := externalType_eq_ok h
      exact .external hfound hx
    · rw [if_neg hx] at h
      have hown := Bool.not_eq_true _ ▸ hx
      cases schema with
      | object => cases h; exact .bean hfound hown rfl hnamed
      | enumeration => cases h; exact .enum hfound hown rfl hnamed
      | _ => exact .aliased hfound h

/-- The case by which a node got its type. -/
inductive Mapped (contract : Contract) (map : Mapping) (owner : String) (role : Scalar)
    (w : Workspace) : Schema → TypeRef → Workspace → Prop
  | external {s : Schema} {qualified : String} (external : s.isExternal = true) :
      Mapped contract map owner role w s (.external qualified) w
  | reference {location target : String} {type : TypeRef} {w' : Workspace}
      (referred : referenceWith contract map target location w = .ok type w') :
      Mapped contract map owner role w (.reference location target) type w'
  | primitive {n : SchemaNotes} {type : String} {format : Tree} {text : Option String} :
      Mapped contract map owner role w (.primitive n type format) (.primitive type text) w
  | binary {n : SchemaNotes} : Mapped contract map owner role w (.binary n) .binary w
  | any {n : SchemaNotes} : Mapped contract map owner role w (.any n) .any w
  | array {n : SchemaNotes} {items : Schema} {type : TypeRef} {w' : Workspace}
      (element : map (some items) owner (innerRole role "Item") w = .ok type w') :
      Mapped contract map owner role w (.array n items) (.list type) w'
  | map {n : SchemaNotes} {value : Schema} {type : TypeRef} {w' : Workspace}
      (element : map (some value) owner (innerRole role "Value") w = .ok type w') :
      Mapped contract map owner role w (.map n value) (.map type) w'
  | enumeration {n : SchemaNotes} {type : Tree} {values : List Tree} {name : String}
      {w' : Workspace} (new : name ∉ w.tables.taken)
      (built : buildEnum name (.enumeration n type values) values
        { w with tables := w.tables.take name } = .ok () w') :
      Mapped contract map owner role w (.enumeration n type values) (.enum name) w'
  | emptyObject {n : SchemaNotes} {required : List Scalar} :
      Mapped contract map owner role w (.object n [] required []) (.map .any) w
  | object {s : Schema} {name : String} {w' : Workspace} (object : s.isObject = true)
      (new : name ∉ w.tables.taken)
      (built : buildBean contract map name s
        { w with tables := w.tables.take name } = .ok () w') :
      Mapped contract map owner role w s (.bean name) w'

theorem mapped_of_eq_ok {s : Schema} {owner : String} {role : Scalar} {type : TypeRef}
    {w w' : Workspace} (h : mapNode contract map (some s) owner role w = .ok type w') :
    Mapped contract map owner role w s type w' := by
  unfold mapNode at h
  dsimp only at h
  by_cases hx : s.isExternal = true
  · rw [if_pos hx] at h
    obtain ⟨rfl, qualified, rfl⟩ := externalType_eq_ok h
    exact .external hx
  · rw [if_neg hx] at h
    cases s with
    | reference location target => exact .reference h
    | primitive n type format =>
      obtain ⟨text, v, ht, h⟩ := Step.bind_eq_ok.mp h
      obtain ⟨-, rfl⟩ := Step.lift_eq_ok.mp ht
      cases h
      exact .primitive
    | binary n => cases h; exact .binary
    | any n => cases h; exact .any
    | unsupported n what => cases h
    | enumeration n type values =>
      obtain ⟨name, v, hname, h⟩ := Step.bind_eq_ok.mp h
      obtain ⟨hnew, rfl⟩ := synthesizeName_eq_ok hname
      obtain ⟨⟨⟩, v, hbuilt, h⟩ := Step.bind_eq_ok.mp h
      cases h
      exact .enumeration hnew hbuilt
    | array n items =>
      obtain ⟨element, v, hmap, h⟩ := Step.bind_eq_ok.mp h
      cases h
      exact .array hmap
    | map n value =>
      obtain ⟨element, v, hmap, h⟩ := Step.bind_eq_ok.mp h
      cases h
      exact .map hmap
    | object n properties required members =>
      dsimp only at h
      by_cases hempty : (properties.isEmpty && members.isEmpty) = true
      · rw [if_pos hempty] at h
        simp only [Bool.and_eq_true, List.isEmpty_iff] at hempty
        obtain ⟨rfl, rfl⟩ := hempty
        cases h
        exact .emptyObject
      · rw [if_neg hempty] at h
        obtain ⟨name, v, hname, h⟩ := Step.bind_eq_ok.mp h
        obtain ⟨hnew, rfl⟩ := synthesizeName_eq_ok hname
        obtain ⟨⟨⟩, v, hbuilt, h⟩ := Step.bind_eq_ok.mp h
        cases h
        exact .object rfl hnew hbuilt

def componentMapping (contract : Contract) : Mapping := mapWithin contract (depthBound contract 0)

/-- The case by which a component was entered, with the name of its type. -/
inductive Entered (contract : Contract) (component javaName : String) (w : Workspace) :
    Schema → Workspace → Prop
  | external {s : Schema} (external : s.isExternal = true) :
      Entered contract component javaName w s w
  | object {s : Schema} {w' : Workspace} (own : s.isExternal = false) (object : s.isObject = true)
      (built : buildBean contract (componentMapping contract) javaName s w = .ok () w') :
      Entered contract component javaName w s w'
  | enumeration {n : SchemaNotes} {type : Tree} {values : List Tree} {w' : Workspace}
      (built : buildEnum javaName (.enumeration n type values) values w = .ok () w') :
      Entered contract component javaName w (.enumeration n type values) w'
  | aliased {s : Schema} {type : TypeRef} {w' : Workspace} (own : s.isExternal = false)
      (noObject : s.isObject = false) (noEnumeration : s.isEnumeration = false)
      (referred : referenceWith contract (componentMapping contract) component s.location w =
        .ok type w') :
      Entered contract component javaName w s w'

theorem entered_of_eq_ok {component : String} {s : Schema} {w w' : Workspace}
    (h : mapComponent contract component s w = .ok () w') :
    ∃ javaName, Table.get? w.tables.typeNames component = some javaName ∧
      Entered contract component javaName w s w' := by
  obtain ⟨t, v, ht, h⟩ := Step.bind_eq_ok.mp h
  cases ht
  obtain ⟨javaName, v, hlift, h⟩ := Step.bind_eq_ok.mp h
  obtain ⟨hn, rfl⟩ := Step.lift_eq_ok.mp hlift
  refine ⟨javaName, Outcome.need_eq_ok.mp hn, ?_⟩
  by_cases hx : s.isExternal = true
  · rw [if_pos hx] at h
    cases h
    exact .external hx
  · rw [if_neg hx] at h
    have hown := Bool.not_eq_true _ ▸ hx
    cases s with
    | object => exact .object hown rfl h
    | enumeration => exact .enumeration h
    | _ =>
      obtain ⟨type, v, href, h⟩ := Step.bind_eq_ok.mp h
      cases h
      exact .aliased hown rfl rfl href

theorem keeps_reference (component location : String) :
    Step.Keeps Grows (reference contract component location) :=
  keeps_referenceWith (growing_mapWithin _) component location

/-- A component that fails has added the types of some of its parts only. -/
theorem grows_of_mapComponent_eq_error {component : String} {s : Schema} {w w' : Workspace}
    {e : Failure} (h : mapComponent contract component s w = .error e w') :
    w.tables.Grows w'.tables := by
  rcases Step.bind_eq_error.mp h with h | ⟨t, v, ht, h⟩
  · cases h
  cases ht
  rcases Step.bind_eq_error.mp h with h | ⟨javaName, v, hn, h⟩
  · rw [(Step.lift_eq_error.mp h).2]
    exact Grows.refl _
  obtain ⟨-, rfl⟩ := Step.lift_eq_ok.mp hn
  by_cases hx : s.isExternal = true
  · rw [if_pos hx] at h
    cases h
  · rw [if_neg hx] at h
    cases s with
    | object => exact grows_of_buildBean_eq_error (growing_mapWithin _) h
    | enumeration => cases h
    | _ => exact ((keeps_reference component _).map fun _ => ()).of_error h

end Types

end ApiContract
