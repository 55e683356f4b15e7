import ApiContract.Proofs.Naming.Respelling
import ApiContract.Proofs.Types.Traversal

/-! # Names that start with those of their owners

A type that has no name gets one that starts with the type name of its owner, and the owner of the
parts of a bean is the bean under the name that it was given. So the name of such a part starts with
that of the bean exactly when the name of the bean is its own type name. All beans in the tables
have names that were given out, and the types of their fields are those that the properties were
mapped to for these names.
-/
namespace ApiContract

namespace Naming

/-- The names that are given out for an owner: its type name, or with that of a role behind it, as
they are or with a number. -/
inductive IsDerived (owner : String) : String → Prop
  | whole (taken : List String) : IsDerived owner (fresh taken (typeName owner) "")
  | part (taken : List String) (role : String) :
      IsDerived owner (fresh taken (typeName owner ++ typeName role) "")

variable {owner name : String}

theorem IsDerived.exists_append (h : IsDerived owner name) :
    ∃ more, name.toList = typeWord owner.toList ++ more := by
  cases h with
  | whole taken =>
    obtain ⟨digits, hfresh, -⟩ := exists_digits_fresh taken (typeName owner)
    exact ⟨digits, by rw [hfresh, typeName, String.toList_ofList]⟩
  | part taken role =>
    obtain ⟨digits, hfresh, -⟩ := exists_digits_fresh taken (typeName owner ++ typeName role)
    refine ⟨(typeName role).toList ++ digits, ?_⟩
    rw [hfresh, String.toList_append, typeName, String.toList_ofList, List.append_assoc]

theorem endsPlain_typeName (name : String) : EndsPlain (typeName name).toList := by
  rw [typeName, String.toList_ofList]
  exact endsPlain_typeWord name.toList

theorem IsDerived.endsPlain (h : IsDerived owner name) : EndsPlain name.toList := by
  cases h with
  | whole taken => exact endsPlain_fresh (endsPlain_typeName owner) taken
  | part taken role =>
    refine endsPlain_fresh ?_ taken
    rw [String.toList_append]
    exact (endsPlain_typeName role).append _

/-- The name of a part starts with that of its owner when the owner is its own type name. -/
theorem IsDerived.prefix_iff {earlier : String} (h : IsDerived owner name)
    (given : IsDerived earlier owner) :
    owner.toList <+: name.toList ↔ typeName owner = owner := by
  obtain ⟨more, hname⟩ := h.exists_append
  rw [hname, typeName_eq_self_iff, ← typeWord_eq_self_iff]
  constructor
  · exact typeWord_eq_self_of_prefix_append given.endsPlain
  · intro hsame
    rw [hsame]
    exact List.prefix_append _ _

end Naming

/-- A type that is known by a name, or lists and maps of one. -/
inductive TypeRef.Around (name : String) : TypeRef → Prop
  | bean : Around name (.bean name)
  | enum : Around name (.enum name)
  | list {element : TypeRef} (inner : Around name element) : Around name (.list element)
  | map {element : TypeRef} (inner : Around name element) : Around name (.map element)

/-- An enumeration or an object with parts that stands where it is used, or lists and maps of
one. -/
inductive Schema.Anonymous : Schema → Prop
  | enumeration {n : SchemaNotes} {type : Tree} {values : List Tree}
      (own : (Schema.enumeration n type values).isExternal = false) :
      Anonymous (.enumeration n type values)
  | object {n : SchemaNotes} {properties : List (Scalar × Schema)} {required : List Scalar}
      {members : List Schema}
      (own : (Schema.object n properties required members).isExternal = false)
      (filled : (properties.isEmpty && members.isEmpty) = false) :
      Anonymous (.object n properties required members)
  | array {n : SchemaNotes} {items : Schema} (own : (Schema.array n items).isExternal = false)
      (inner : Anonymous items) : Anonymous (.array n items)
  | map {n : SchemaNotes} {value : Schema} (own : (Schema.map n value).isExternal = false)
      (inner : Anonymous value) : Anonymous (.map n value)

open Step

namespace Types

open Naming

variable {contract : Contract}

theorem isDerived_of_synthesizeName {owner name : String} {role : Scalar} {w w' : Workspace}
    (h : synthesizeName owner role w = .ok name w') : IsDerived owner name := by
  obtain ⟨half, v, hlift, h⟩ := bind_eq_ok.mp h
  obtain ⟨hrole, rfl⟩ := lift_eq_ok.mp hlift
  rw [giveName_apply] at h
  cases h
  unfold roleName at hrole
  split at hrole
  · obtain ⟨text, -, rfl⟩ := Outcome.map_eq_ok.mp hrole
    exact .part _ text
  · cases hrole
    rw [String.append_empty]
    exact .whole _

theorem exists_mapNode_of_mapWithin {depth : ℕ} {schema : Option Schema} {owner : String}
    {role : Scalar} {type : TypeRef} {w w' : Workspace}
    (run : mapWithin contract depth schema owner role w = .ok type w') :
    ∃ below, mapNode contract (mapWithin contract below) schema owner role w = .ok type w' := by
  cases depth with
  | zero => cases run
  | succ below => exact ⟨below, run⟩

/-- An anonymous part has a type around a name that was given out for its owner. -/
theorem around_of_mapWithin {s : Schema} (h : s.Anonymous) {depth : ℕ} {owner : String}
    {role : Scalar} {type : TypeRef} {w w' : Workspace}
    (run : mapWithin contract depth (some s) owner role w = .ok type w') :
    ∃ name, type.Around name ∧ IsDerived owner name := by
  induction h generalizing depth role type w w' with
  | enumeration own =>
    obtain ⟨below, run⟩ := exists_mapNode_of_mapWithin run
    rw [mapNode, own] at run
    obtain ⟨name, v, hname, run⟩ := bind_eq_ok.mp run
    obtain ⟨-, v, -, run⟩ := bind_eq_ok.mp run
    cases run
    exact ⟨name, .enum, isDerived_of_synthesizeName hname⟩
  | object own filled =>
    obtain ⟨below, run⟩ := exists_mapNode_of_mapWithin run
    rw [mapNode, own] at run
    simp only [filled, Bool.false_eq_true, if_false] at run
    obtain ⟨name, v, hname, run⟩ := bind_eq_ok.mp run
    obtain ⟨-, v, -, run⟩ := bind_eq_ok.mp run
    cases run
    exact ⟨name, .bean, isDerived_of_synthesizeName hname⟩
  | array own _ ih =>
    obtain ⟨below, run⟩ := exists_mapNode_of_mapWithin run
    rw [mapNode, own] at run
    obtain ⟨element, v, helement, run⟩ := bind_eq_ok.mp run
    cases run
    obtain ⟨name, haround, hname⟩ := ih helement
    exact ⟨name, .list haround, hname⟩
  | map own _ ih =>
    obtain ⟨below, run⟩ := exists_mapNode_of_mapWithin run
    rw [mapNode, own] at run
    obtain ⟨element, v, helement, run⟩ := bind_eq_ok.mp run
    cases run
    obtain ⟨name, haround, hname⟩ := ih helement
    exact ⟨name, .map haround, hname⟩

/-- A bean that was built has a field for each property, and an anonymous property gives a name that
starts with that of the bean exactly if the name of the bean is its own type name. -/
theorem fields_of_buildBean {depth : ℕ} {earlier owner : String} (given : IsDerived earlier owner)
    {schema : Schema} {w w' : Workspace}
    (run : buildBean contract (mapWithin contract depth) owner schema w = .ok () w') :
    ∃ bean merged, Table.get? w'.tables.beans owner = some bean ∧
      Merged.ofSchema contract schema = .ok merged ∧
      List.Forall₂ (fun p f => f.name = p.1 ∧
        (p.2.Anonymous → ∃ name, f.type.Around name ∧
          (owner.toList <+: name.toList ↔ typeName owner = owner)))
        merged.properties bean.fields := by
  obtain ⟨merged, fields, v, hmerged, hfields, ht⟩ := buildBean_eq_ok run
  refine ⟨beanOf owner schema fields, merged, ?_, hmerged, ?_⟩
  · rw [ht]
    exact Table.get?_put_self _ _ _
  · refine (forall₂_of_mapM hfields).imp fun p f ⟨u, u', hfield⟩ => ?_
    obtain ⟨type, u', htype, hfield⟩ := bind_eq_ok.mp hfield
    cases hfield
    refine ⟨rfl, fun anonymous => ?_⟩
    obtain ⟨name, haround, hname⟩ := around_of_mapWithin anonymous htype
    exact ⟨name, haround, hname.prefix_iff given⟩

end Types

namespace TypeTables

variable {contract : Contract} {t : TypeTables}

/-- Tables with the type names of components and with beans that were built under names that were
given out. -/
structure Owning (contract : Contract) (t : TypeTables) : Prop where
  components : ∀ c n, Table.get? t.typeNames c = some n →
    ∃ taken, n = Naming.fresh taken (Naming.typeName c) ""
  beans : ∀ e ∈ t.beans, e.1 = e.2.name ∧ (∃ owner, Naming.IsDerived owner e.2.name) ∧
    Types.BuiltBean contract e.2

theorem Owning.withBean (h : t.Owning contract) {bean : Bean}
    (given : ∃ owner, Naming.IsDerived owner bean.name) (built : Types.BuiltBean contract bean) :
    (Types.withBean t bean).Owning contract where
  components := h.components
  beans := by
    intro e he
    rcases Table.mem_put he with he | rfl
    · exact h.beans e he
    · exact ⟨rfl, given, built⟩

theorem Owning.rollback (h : t.Owning contract) (m : Mark) : (t.rollback m).Owning contract where
  components := h.components
  beans := fun e he => h.beans e (List.mem_of_mem_take he)

theorem Owning.reserve (h : t.Owning contract) (component : String) :
    (t.reserve component).Owning contract where
  components := by
    intro c n hn
    rcases get?_reserve hn with ⟨rfl, rfl⟩ | ⟨-, hold⟩
    · exact ⟨t.taken, rfl⟩
    · exact h.components c n hold
  beans := h.beans

theorem owning_reset (contract : Contract) (t : TypeTables) :
    (t.reset contract).Owning contract := by
  have hall : ∀ (components : List String) (u : TypeTables), u.Owning contract →
      (components.foldl TypeTables.reserve u).Owning contract := by
    intro components
    induction components with
    | nil => exact fun u hu => hu
    | cons c rest ih => exact fun u hu => ih _ (hu.reserve c)
  rw [reset, reserveAll_eq_foldl]
  exact hall _ _ ⟨fun c n h => by simp [Table.get?] at h, by simp⟩

theorem owning_synthesizeName (owner : String) (role : Scalar) :
    Yields (Owning contract) (fun _ => false) (Naming.IsDerived owner)
      (Types.synthesizeName owner role) := by
  have hguards : Guards (Owning contract) (fun _ => false) (Types.synthesizeName owner role) := by
    refine .bind (.lift_any _) fun half _ => .bind .tables fun t _ => ?_
    exact .bind (.modifyTables fun u hu => ⟨hu.components, hu.beans⟩) fun _ _ => .pure trivial
  exact hguards.ran.weaken fun name ⟨w, w', h⟩ => Types.isDerived_of_synthesizeName h

theorem upheld_owning (contract : Contract) :
    Upheld contract (fun n => ∃ owner, Naming.IsDerived owner n) (Owning contract) where
  given := fun owner role => (owning_synthesizeName owner role).weaken fun _ h => ⟨owner, h⟩
  component := by
    intro t c n ht hn
    obtain ⟨taken, rfl⟩ := ht.components c n hn
    exact ⟨c, .whole taken⟩
  bean := fun _ _ ht => ht.withBean
  enum := fun _ _ ht => ⟨ht.components, ht.beans⟩
  resolving := fun _ _ ht => ⟨ht.components, ht.beans⟩
  aliases := fun _ _ ht => ⟨ht.components, ht.beans⟩
  failed := fun _ _ ht => ⟨ht.components, ht.beans⟩
  rollback := fun t _ _ hu => hu.rollback t.mark
  start := fun t => ⟨(owning_reset contract t).components, (owning_reset contract t).beans⟩

end TypeTables

end ApiContract
