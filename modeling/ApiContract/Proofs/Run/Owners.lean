import ApiContract.Proofs.Run.Reachable
import ApiContract.Proofs.Types.Owners

/-! # Type names of owners in a run

Whatever was mapped before, the beans in reachable tables are under names that were given out, and
each anonymous part of a bean has a name that was given out for the bean. So which names start with
that of their bean is told by the name of the bean alone, and for a component by its own name.
-/
namespace ApiContract.Types

open Naming

variable {contract : Contract} {t t' : TypeTables}

theorem Call.owning (h : Call contract t t') (ht : t.Owning contract) : t'.Owning contract := by
  have hupheld := TypeTables.upheld_owning contract
  cases h with
  | mapSchema schema owner role w => exact (hupheld.mapSchema schema owner role w ht).2
  | reference name location w => exact (hupheld.reference name location w ht).2
  | synthesizeName owner role w => exact (hupheld.given owner role w ht).2
  | resolve settings op method w => exact (hupheld.resolve op method w ht).2

theorem Reachable.owning {marks : List TypeTables.Mark} (h : Reachable contract marks t) :
    t.Owning contract := by
  induction h with
  | fresh => exact TypeTables.owning_reset contract {}
  | call _ called ih => exact called.owning ih
  | build _ ih => exact ((TypeTables.upheld_owning contract).buildTables _ ih).2
  | mark _ ih => exact ih
  | @rollback mark _ _ _ ih => exact ih.rollback mark
  | forget _ ih => exact ih

/-- A type name is its own type name, with and without a number behind it, exactly if the name that
it is made of is in Pascal case, starts with a letter, or starts with a digit and has no word that
swallows the one behind it. Where a bean is built under a name that was given out, an anonymous
property gets a name that starts with that of the bean exactly if the name of the bean is its own
type name. All beans in reachable tables were built so, and for a component it is told by its own
name whether its type name is kept. -/
theorem typeName_typeName_iff (name : String) (taken : List String) {contract : Contract}
    {marks : List TypeTables.Mark} {t : TypeTables} (reachable : Reachable contract marks t) :
    (typeName name = name ↔ isKept name.toList = true) ∧
      (typeName (typeName name) = typeName name ↔ IsStable name.toList) ∧
      (typeName (fresh taken (typeName name) "") = fresh taken (typeName name) "" ↔
        IsStable name.toList) ∧
      (∀ depth earlier owner schema w w', IsDerived earlier owner →
        buildBean contract (mapWithin contract depth) owner schema w = .ok () w' →
        ∃ bean merged, Table.get? w'.tables.beans owner = some bean ∧
          Merged.ofSchema contract schema = .ok merged ∧
          List.Forall₂ (fun p f => f.name = p.1 ∧
            (p.2.Anonymous → ∃ part, f.type.Around part ∧
              (owner.toList <+: part.toList ↔ typeName owner = owner)))
            merged.properties bean.fields) ∧
      (∀ c n, Table.get? t.typeNames c = some n → (typeName n = n ↔ IsStable c.toList)) ∧
      ∀ e ∈ t.beans, e.1 = e.2.name ∧ (∃ earlier, IsDerived earlier e.2.name) ∧
        BuiltBean contract e.2 := by
  have howning := reachable.owning
  refine ⟨typeName_eq_self_iff, ?_, typeName_fresh_iff name taken, ?_, ?_, howning.beans⟩
  · rw [typeName_eq_self_iff, typeName, String.toList_ofList, isKept_typeWord_iff]
  · intro depth earlier owner schema w w' given run
    exact fields_of_buildBean given run
  · intro c n hn
    obtain ⟨before, rfl⟩ := howning.components c n hn
    exact typeName_fresh_iff c before

def medalSchema : Schema :=
  .enumeration { location := "#/medal" } (.text "string") [.text "gold"]

def placeSchema : Schema :=
  .object { location := "#/components/schemas/1st-place" } [(.text "medal", medalSchema)] [] []

/-- Two components whose type names start with a digit; the words of the second are single
letters. -/
def placesContract : Contract :=
  { title := "Places", version := "1",
    schemas := [
      ("1st-place", placeSchema),
      ("1-a-b", .object { location := "#/components/schemas/1-a-b" }
        [(.text "x", .enumeration { location := "#/x" } (.text "string") [.text "y"])] [] [])] }

def placesTables : TypeTables :=
  (Step.outcome (buildTables placesContract (.fresh placesContract))).2

theorem typeName_typeName_iff_places :
    ∃ w' bean f part, IsDerived "1st-place" "_1stPlace" ∧
      buildBean placesContract (mapWithin placesContract 2) "_1stPlace" placeSchema
        (.fresh placesContract) = .ok () w' ∧
      Table.get? w'.tables.beans "_1stPlace" = some bean ∧ bean.fields = [f] ∧
      f.name = .text "medal" ∧ f.type.Around part ∧ "_1stPlace".toList <+: part.toList ∧
      Reachable placesContract [] placesTables ∧
      IsStable "1st-place".toList ∧ ¬IsStable "1-a-b".toList ∧
      ∀ e ∈ placesTables.beans, e.1 = e.2.name ∧ (∃ earlier, IsDerived earlier e.2.name) ∧
        BuiltBean placesContract e.2 := by
  have hbuilt : Reachable placesContract [] placesTables :=
    .build (w := .fresh placesContract) .fresh
  obtain ⟨-, hstable, -, hbuilds, -, hbeans⟩ := typeName_typeName_iff "1st-place" [] hbuilt
  obtain ⟨-, hother, -⟩ := typeName_typeName_iff "1-a-b" [] hbuilt
  have given : IsDerived "1st-place" "_1stPlace" := by
    have hname : fresh [] (typeName "1st-place") "" = "_1stPlace" := by decide +kernel
    exact hname ▸ .whole []
  obtain ⟨⟨⟩, w', run, -⟩ : ∃ u w', buildBean placesContract (mapWithin placesContract 2)
      "_1stPlace" placeSchema (.fresh placesContract) = .ok u w' ∧ u = () :=
    Step.exists_of_outcome (f := id) (by decide +kernel)
  obtain ⟨bean, merged, entered, hmerged, hfields⟩ :=
    hbuilds 2 "1st-place" "_1stPlace" placeSchema _ w' given run
  have hproperties : Merged.ofSchema placesContract placeSchema =
      .ok { properties := [(.text "medal", medalSchema)] } := rfl
  cases hmerged.symm.trans hproperties
  generalize hall : bean.fields = fields at hfields
  obtain _ | ⟨⟨hname, hpart⟩, _ | _⟩ := hfields
  have hmedal : medalSchema.Anonymous := .enumeration rfl
  obtain ⟨part, haround, hstart⟩ := hpart hmedal
  refine ⟨w', bean, _, part, given, run, entered, hall, hname, haround,
    hstart.mpr (by decide +kernel), hbuilt, hstable.mp (by decide +kernel), ?_, hbeans⟩
  exact fun h => absurd (hother.mpr h) (by decide +kernel)

/-- The type name of a type name may be another, and the name of a part then starts with that. -/
theorem typeName_not_kept :
    typeName "1-a-b" = "_1AB" ∧ typeName "_1AB" = "_1Ab" ∧
      fresh ["_1AB"] (typeName "1-a-b") "" = "_1AB2" ∧ typeName "_1AB2" = "_1Ab2" ∧
      typeName "" = "value" ∧ typeName "value" = "Value" ∧
      Table.keys placesTables.beans = ["_1stPlace", "_1AB"] ∧
      Table.keys placesTables.enums = ["_1stPlaceMedal", "_1AbX"] := by
  decide +kernel

end ApiContract.Types
