import Mathlib.Data.List.Nodup
import ApiContract.Proofs.Naming.Capitals
import ApiContract.Proofs.Source.Annotations

/-! # The members of a class

A property becomes a field and two accessors that are called after the field. Names of
properties may fall together when they are made identifiers, and a number that tells two of them
apart may be part of the name of a third. Still no two fields have one identifier, and neither
have two accessors of a kind, since an identifier does not start with a capital. The one getter
that every object has is called after a reserved word, and so it is never declared again.
-/
namespace ApiContract.Source
open Naming Outcome

variable {settings : Settings}

/-- What a property becomes: a field with the identifier of its name, or with a number behind
that, and accessors that are called after the field. -/
structure Declares (f : BeanField) (u : FieldUnit) : Prop where
  named : ∃ name, f.name.text? = some name ∧ u.literal = Text.escaped name ∧
    (u.identifier = identifier name ∨ ∃ n, u.identifier = numbered (identifier name) "" n)
  getter : u.getter = accessor "get" u.identifier
  setter : u.setter = accessor "set" u.identifier

/-- Fields and accessors that can stand in one class. -/
structure MembersApart (fields : List FieldUnit) : Prop where
  legal : ∀ u ∈ fields, IsIdentifier u.identifier.toList ∧
    isReserved u.identifier.toList = false
  identifiers : (fields.map FieldUnit.identifier).Nodup
  getters : (fields.map FieldUnit.getter).Nodup
  setters : (fields.map FieldUnit.setter).Nodup
  inherited : "getClass" ∉ fields.map FieldUnit.getter

/-- A class that can be written: its descriptions can be shown and its types have texts. -/
structure LegibleBean (settings : Settings) (bean : Bean) : Prop where
  comment : Succeeds (Doc.renderDescription bean.description)
  fields : ∀ f ∈ bean.fields,
    Succeeds (Doc.renderDescription f.description) ∧ Succeeds (typePiece none settings f.type)

theorem accessor_injective {kind a b : String} (ha : StartsSmall a.toList)
    (hb : StartsSmall b.toList) (h : accessor kind a = accessor kind b) : a = b := by
  have hcapital := String.ofList_injective ((String.append_right_inj kind).mp h)
  exact String.toList_inj.mp (capitalize_injective ha hb hcapital)

theorem nodup_accessors (kind : String) {identifiers : List String}
    (hsmall : ∀ i ∈ identifiers, StartsSmall i.toList) (h : identifiers.Nodup) :
    (identifiers.map (accessor kind)).Nodup :=
  h.map_on fun i hi j hj he => accessor_injective (hsmall i hi) (hsmall j hj) he

/-- The getter of objects would be that of a field that is called by a reserved word. -/
theorem getter_ne_getClass {i : String} (hsmall : StartsSmall i.toList)
    (hfree : isReserved i.toList = false) : accessor "get" i ≠ "getClass" := by
  intro h
  have hhead : "class".toList.head? = some 'c' := by decide
  have hclass : StartsSmall "class".toList := fun c hc => by
    cases hhead.symm.trans hc
    decide
  obtain rfl : i = "class" := accessor_injective hsmall hclass (h.trans (by decide))
  revert hfree
  decide +kernel

/-- What holds of the fields that were added so far. -/
structure Declared (fields : List FieldUnit) : Prop where
  names : LegalNames (fields.map FieldUnit.identifier)
  small : ∀ u ∈ fields, StartsSmall u.identifier.toList
  accessors : ∀ u ∈ fields,
    u.getter = accessor "get" u.identifier ∧ u.setter = accessor "set" u.identifier

theorem Declared.apart_members {fields : List FieldUnit} (h : Declared fields) :
    MembersApart fields where
  legal := List.forall_mem_map.mp h.names.legal
  identifiers := h.names.apart
  getters := by
    have hgetters : fields.map FieldUnit.getter =
        (fields.map FieldUnit.identifier).map (accessor "get") := by
      rw [List.map_map]
      exact List.map_congr_left fun u hu => (h.accessors u hu).1
    rw [hgetters]
    exact nodup_accessors "get" (List.forall_mem_map.mpr h.small) h.names.apart
  setters := by
    have hsetters : fields.map FieldUnit.setter =
        (fields.map FieldUnit.identifier).map (accessor "set") := by
      rw [List.map_map]
      exact List.map_congr_left fun u hu => (h.accessors u hu).2
    rw [hsetters]
    exact nodup_accessors "set" (List.forall_mem_map.mpr h.small) h.names.apart
  inherited := by
    intro hmem
    obtain ⟨u, hu, hgetter⟩ := List.mem_map.mp hmem
    have hlegal := List.forall_mem_map.mp h.names.legal u hu
    exact getter_ne_getClass (h.small u hu) hlegal.2 ((h.accessors u hu).1 ▸ hgetter)

theorem exists_of_addField {state state' : FieldState} {f : BeanField}
    (h : addField settings state f = .ok state') :
    ∃ name u, f.name.text? = some name ∧ state'.fields = state.fields ++ [u] ∧
      u.literal = Text.escaped name ∧
      u.identifier = fresh (state.fields.map FieldUnit.identifier) (identifier name) "" ∧
      u.getter = accessor "get" u.identifier ∧ u.setter = accessor "set" u.identifier := by
  obtain ⟨name, hname, h⟩ := bind_eq_ok.mp h
  obtain ⟨comment, -, h⟩ := bind_eq_ok.mp h
  obtain ⟨type, -, h⟩ := bind_eq_ok.mp h
  cases h
  exact ⟨name, _, need_eq_ok.mp hname, rfl, rfl, rfl, rfl, rfl⟩

theorem declares_addField {state state' : FieldState} {f : BeanField}
    (h : addField settings state f = .ok state') :
    ∃ u, state'.fields = state.fields ++ [u] ∧ Declares f u := by
  obtain ⟨name, u, hname, hfields, hliteral, hidentifier, hgetter, hsetter⟩ :=
    exists_of_addField h
  refine ⟨u, hfields, ⟨name, hname, hliteral, ?_⟩, hgetter, hsetter⟩
  rw [hidentifier]
  exact fresh_eq _ _ _

theorem Declared.addField {state state' : FieldState} {f : BeanField}
    (hstate : Declared state.fields) (h : Source.addField settings state f = .ok state') :
    Declared state'.fields := by
  obtain ⟨name, u, -, hfields, -, hidentifier, haccessors⟩ := exists_of_addField h
  have hword : (identifier name).toList = identifierWord name.toList := String.toList_ofList
  have hbase : IsIdentifier (identifier name).toList :=
    hword ▸ isIdentifier_identifierWord name.toList
  have hne : (identifier name).toList ≠ [] := by
    obtain ⟨c, rest, hcons, -⟩ := hbase.start
    rw [hcons]
    exact List.cons_ne_nil _ _
  have hfree : isReserved (identifier name).toList = false := hword ▸ not_isReserved_legal _
  have hsmall : StartsSmall (identifier name).toList :=
    hword ▸ startsSmall_identifierWord name.toList
  rw [hfields]
  constructor
  · rw [List.map_append, List.map_singleton, hidentifier]
    exact hstate.names.concat_fresh hbase hfree (by simp)
  · refine List.forall_mem_append.mpr ⟨hstate.small, List.forall_mem_singleton.mpr ?_⟩
    rw [hidentifier]
    exact hsmall.fresh hne _ _
  · exact List.forall_mem_append.mpr ⟨hstate.accessors, List.forall_mem_singleton.mpr haccessors⟩

theorem succeeds_fieldComment (f : BeanField) :
    Succeeds (fieldComment f) ↔ Succeeds (Doc.renderDescription f.description) :=
  succeeds_bind_ok fun _ => succeeds_ok _

/-- The name of a property decides nothing but how its field is called. -/
theorem succeeds_addField {f : BeanField} {name : String} (hname : f.name.text? = some name)
    (state : FieldState) :
    Succeeds (addField settings state f) ↔
      Succeeds (Doc.renderDescription f.description) ∧
        Succeeds (typePiece none settings f.type) := by
  unfold addField
  rw [hname, ← succeeds_fieldComment]
  exact succeeds_bind fun comment => succeeds_bind_ok fun type => succeeds_ok _

theorem succeeds_beanUnit {bean : Bean}
    (named : ∀ f ∈ bean.fields, ∃ name, f.name.text? = some name) :
    Succeeds (beanUnit settings bean) ↔ LegibleBean settings bean := by
  have hfields : Succeeds (bean.fields.foldlM (addField settings) {}) ↔ ∀ f ∈ bean.fields,
      Succeeds (Doc.renderDescription f.description) ∧ Succeeds (typePiece none settings f.type) :=
    succeeds_foldlM (fun state f hf => succeeds_addField (named f hf).choose_spec state) {}
  have hunit : Succeeds (beanUnit settings bean) ↔
      Succeeds (bean.fields.foldlM (addField settings) {}) ∧
        Succeeds (Doc.renderDescription bean.description) :=
    succeeds_bind fun final => succeeds_bind_ok fun comment => succeeds_ok _
  rw [hunit, hfields]
  exact ⟨fun h => ⟨h.2, h.1⟩, fun h => ⟨h.fields, h.comment⟩⟩

/-- Whatever its properties are called, a class is written if its descriptions and types are. It
has a field for each property, in their order, and all its members are legal and apart. -/
theorem members_of_beanUnit {bean : Bean}
    (named : ∀ f ∈ bean.fields, ∃ name, f.name.text? = some name) :
    (Succeeds (beanUnit settings bean) ↔ LegibleBean settings bean) ∧
      ∀ unit, beanUnit settings bean = .ok unit →
        List.Forall₂ Declares bean.fields unit.fields ∧ MembersApart unit.fields := by
  refine ⟨succeeds_beanUnit named, fun unit h => ?_⟩
  obtain ⟨final, hfinal, h⟩ := bind_eq_ok.mp h
  obtain ⟨comment, -, h⟩ := bind_eq_ok.mp h
  cases h
  constructor
  · obtain ⟨new, hnew, hall⟩ := forall₂_of_foldlM FieldState.fields Declares
      (fun _ _ _ => declares_addField) hfinal
    rw [List.nil_append] at hnew
    exact hnew ▸ hall
  · have hstart : Declared [] := ⟨.nil, by simp, by simp⟩
    have hdeclared : Declared final.fields :=
      foldlM_keeps (P := fun state : FieldState => Declared state.fields)
        (fun _ hstate _ _ _ hadd => hstate.addField hadd) hstart hfinal
    exact hdeclared.apart_members

/-- Names that fall together, one of which looks like another with a number, reserved words, and
names without a letter. -/
def oddBean : Bean :=
  { name := "Odd"
    fields := ["item-id", "item_id", "itemId2", "class", "Class", "2nd", "?"].map fun name =>
      { name := .text name, type := .list (.primitive "string" none) } }

theorem members_of_beanUnit_odd :
    (∀ f ∈ oddBean.fields, ∃ name, f.name.text? = some name) ∧ LegibleBean {} oddBean ∧
      ∃ unit, beanUnit {} oddBean = .ok unit ∧
        unit.fields.map FieldUnit.identifier =
          ["itemId", "itemId2", "itemId22", "class_", "class_2", "_2nd", "value"] ∧
        List.Forall₂ Declares oddBean.fields unit.fields ∧ MembersApart unit.fields := by
  have hnamed : ∀ f ∈ oddBean.fields, ∃ name, f.name.text? = some name := by
    simp [oddBean, Scalar.text?]
  obtain ⟨unit, hunit, hidentifiers⟩ := exists_of_map_toOption (o := beanUnit {} oddBean)
    (f := fun unit => unit.fields.map FieldUnit.identifier)
    (b := ["itemId", "itemId2", "itemId22", "class_", "class_2", "_2nd", "value"])
    (by decide +kernel)
  obtain ⟨hlegible, hmembers⟩ := @members_of_beanUnit {} oddBean hnamed
  exact ⟨hnamed, hlegible.mp ⟨unit, hunit⟩, unit, hunit, hidentifiers, hmembers unit hunit⟩

end ApiContract.Source
