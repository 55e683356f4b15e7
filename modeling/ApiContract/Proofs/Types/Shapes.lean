import ApiContract.Proofs.Types.Inversion
import ApiContract.Proofs.Types.Reservation
import ApiContract.Proofs.Types.Words

/-! # What holds of all types that mapping makes

Mapping makes types in few ways: by the name of a type from outside, by a form of primitive,
by the name of a bean or an enum, as binary or any value, and as a list or a map of a type that
it made. What holds of such types and passes on to lists and maps holds of each type that a
mapping gives, of the fields of all beans and of all aliases, as long as schemas are mapped
and tables are built or rolled back.
-/
namespace ApiContract

/-- A property of types that all ways to make one keep. -/
structure TypeRef.Made (P : TypeRef → Prop) : Prop where
  external : ∀ q, P (.external q)
  primitive : ∀ type format, P (.primitive type format)
  bean : ∀ name, P (.bean name)
  enum : ∀ name, P (.enum name)
  binary : P .binary
  any : P .any
  list : ∀ element, P element → P (.list element)
  map : ∀ element, P element → P (.map element)

/-- Tables in which the types of all fields and all aliases have the property. -/
structure TypeTables.Holding (P : TypeRef → Prop) (t : TypeTables) : Prop where
  fields : ∀ e ∈ t.beans, ∀ f ∈ e.2.fields, P f.type
  aliases : ∀ e ∈ t.aliases, P e.2

variable {P : TypeRef → Prop}

namespace TypeTables

variable {t : TypeTables}

theorem Holding.withBean (h : t.Holding P) {bean : Bean} (hfields : ∀ f ∈ bean.fields, P f.type) :
    (Types.withBean t bean).Holding P where
  fields := by
    intro e he
    rcases Table.mem_put he with he | rfl
    · exact h.fields e he
    · exact hfields
  aliases := h.aliases

theorem Holding.learning (h : t.Holding P) {name : String} {type : TypeRef} (htype : P type) :
    (Types.learning t name type).Holding P where
  fields := h.fields
  aliases := by
    intro e he
    rcases Table.mem_put he with he | rfl
    · exact h.aliases e he
    · exact htype

theorem Holding.rollback (h : t.Holding P) (m : Mark) : (t.rollback m).Holding P where
  fields := fun e he => h.fields e (List.mem_of_mem_take he)
  aliases := fun e he => h.aliases e (List.mem_filter.mp he).1

theorem Blank.holding (h : t.Blank) : t.Holding P where
  fields := by simp [h.beans]
  aliases := by simp [h.aliases]

end TypeTables

namespace Step

/-- However the step ends, the types of the tables have the property if they had it before,
and so has the type that it gives. -/
abbrev Gives (P : TypeRef → Prop) (step : Step TypeRef) : Prop :=
  Yields (TypeTables.Holding P) (fun _ => false) P step

abbrev Retains (P : TypeRef → Prop) {α : Type} (step : Step α) : Prop :=
  Guards (TypeTables.Holding P) (fun _ => false) step

end Step

namespace Types

open Step

variable {contract : Contract} {map : Mapping}

def Giving (P : TypeRef → Prop) (map : Mapping) : Prop :=
  ∀ schema owner role, Gives P (map schema owner role)

theorem gives_externalType (made : TypeRef.Made P) (name : Tree) :
    Gives P (externalType name) := by
  refine Yields.lift ?_
  cases need .illTyped name.text? with
  | ok q => exact .ok (made.external q)
  | error e => exact .error rfl

theorem retains_synthesizeName (owner : String) (role : Scalar) :
    Retains P (synthesizeName owner role) := by
  refine .bind (.lift_any _) fun half _ => ?_
  refine .bind .tables fun t _ => ?_
  exact .bind (.modifyTables fun u hu => ⟨hu.fields, hu.aliases⟩) fun _ _ => .pure trivial

theorem retains_buildEnum (name : String) (schema : Schema) (values : List Tree) :
    Retains P (buildEnum name schema values) := by
  unfold buildEnum
  exact .modifyTables fun t ht => ⟨ht.fields, ht.aliases⟩

theorem retains_buildBean (hmap : Giving P map) (name : String) (schema : Schema) :
    Retains P (buildBean contract map name schema) := by
  refine .bind (.lift_any _) fun merged _ => ?_
  have hfield : ∀ p ∈ merged.properties,
      Yields (TypeTables.Holding P) (fun _ => false) (fun f : BeanField => P f.type)
        (beanField map name merged.required p) :=
    fun p _ => .bind (hmap _ name p.1) fun type htype => .pure htype
  refine .bind (.mapM_all hfield) fun fields hfields => ?_
  refine .bind (.modifyTables fun t ht => ?_) fun _ _ => .record _
  change (withBean t (beanOf name schema fields)).Holding P
  exact ht.withBean hfields

theorem gives_resolveAlias (hmap : Giving P map) (name javaName location : String)
    (schema : Schema) : Gives P (resolveAlias map name javaName location schema) := by
  refine .bind .tables fun t ht => ?_
  split
  · next known => exact .pure (ht.aliases _ (Table.mem_of_get? known))
  · split
    · exact .fail rfl
    · refine .bind (.modifyTables fun _ ht => ⟨ht.fields, ht.aliases⟩) fun _ _ => ?_
      refine .bind (.afterwards (hmap _ javaName _) fun _ ht => ⟨ht.fields, ht.aliases⟩)
        fun type htype => ?_
      exact .bind (.modifyTables fun _ ht => ht.learning htype) fun _ _ => .pure htype

theorem gives_referenceWith (made : TypeRef.Made P) (hmap : Giving P map)
    (name location : String) : Gives P (referenceWith contract map name location) := by
  refine .bind .tables fun t _ => ?_
  split
  · exact .fail rfl
  · refine .bind (.lift_any _) fun schema _ => ?_
    refine .bind (.lift_any _) fun javaName _ => ?_
    split
    · exact gives_externalType made _
    · split
      · exact .pure (made.bean javaName)
      · exact .pure (made.enum javaName)
      · exact gives_resolveAlias hmap name javaName location schema

theorem giving_mapNode (made : TypeRef.Made P) (hmap : Giving P map) :
    Giving P (mapNode contract map) := by
  intro schema owner role
  cases schema with
  | none => exact .pure made.any
  | some s =>
    unfold mapNode
    dsimp only
    split
    · exact gives_externalType made _
    · cases s with
      | reference location target => exact gives_referenceWith made hmap target location
      | unsupported => exact .fail rfl
      | primitive n type format =>
        exact .bind (.lift_any _) fun text _ => .pure (made.primitive type text)
      | binary => exact .pure made.binary
      | any => exact .pure made.any
      | array => exact .bind (hmap _ owner _) fun type htype => .pure (made.list type htype)
      | map => exact .bind (hmap _ owner _) fun type htype => .pure (made.map type htype)
      | enumeration =>
        refine .bind (retains_synthesizeName owner role) fun name _ => ?_
        exact .bind (retains_buildEnum name _ _) fun _ _ => .pure (made.enum name)
      | object =>
        dsimp only
        split
        · exact .pure (made.map _ made.any)
        · refine .bind (retains_synthesizeName owner role) fun name _ => ?_
          exact .bind (retains_buildBean hmap name _) fun _ _ => .pure (made.bean name)

theorem giving_mapWithin (made : TypeRef.Made P) (depth : ℕ) :
    Giving P (mapWithin contract depth) := by
  induction depth with
  | zero => exact fun _ _ _ => .fail rfl
  | succ depth ih => exact giving_mapNode made ih

theorem giving_mapSchema (made : TypeRef.Made P) : Giving P (mapSchema contract) :=
  fun schema owner role => giving_mapWithin made _ schema owner role

theorem gives_reference (made : TypeRef.Made P) (name location : String) :
    Gives P (reference contract name location) :=
  gives_referenceWith made (giving_mapWithin made _) name location

theorem retains_mapComponent (made : TypeRef.Made P) (name : String) (schema : Schema) :
    Retains P (mapComponent contract name schema) := by
  refine .bind .tables fun t _ => ?_
  refine .bind (.lift_any _) fun javaName _ => ?_
  split
  · exact .pure trivial
  · split
    · exact retains_buildBean (giving_mapWithin made _) javaName _
    · exact retains_buildEnum javaName _ _
    · exact .map (gives_reference made name _)

theorem retains_mapComponents (made : TypeRef.Made P) (components : List (String × Schema)) :
    Retains P (mapComponents contract components) := by
  induction components with
  | nil => exact .pure trivial
  | cons c rest ih =>
    unfold mapComponents
    refine .bind .tables fun t _ => ?_
    split
    · exact ih
    · refine .bind (.attempt (retains_mapComponent made c.1 c.2)) fun result _ => ?_
      split
      · exact ih
      · refine .map (.bind (.modifyTables fun u hu => ?_) fun _ _ => .record _)
        exact ⟨(hu.rollback t.mark).fields, (hu.rollback t.mark).aliases⟩

theorem retains_buildTables (made : TypeRef.Made P) : Retains P (buildTables contract) := by
  have hpasses : ∀ passes, Retains P (buildPasses contract passes) := by
    intro passes
    induction passes with
    | zero => exact .fail rfl
    | succ passes ih =>
      refine .bind (.modifyTables fun t _ => (blank_startPass contract t).holding) fun _ _ => ?_
      refine .bind (retains_mapComponents made _) fun complete _ => ?_
      split
      · exact .pure trivial
      · exact ih
  refine .bind (hpasses _) fun _ _ => .bind .tables fun t _ => ?_
  exact .bind (.record _) fun _ _ => .pure trivial

end Types

end ApiContract
