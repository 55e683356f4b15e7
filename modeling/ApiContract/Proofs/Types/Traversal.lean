import ApiContract.Proofs.Endpoint.Signing
import ApiContract.Proofs.Types.Inversion
import ApiContract.Proofs.Types.Reservation
import ApiContract.Proofs.Yields

/-! # Invariants of the tables

Mapping gives names out, enters beans and enums under such names and keeps the types of aliases.
Components are entered under names of their own, what fails is rolled back to a mark, and a build
starts from tables that hold the names of the components. An invariant that each of these steps
keeps holds of the tables however the mapping of a schema, a build or a signature ends.
-/
namespace ApiContract

open Step

namespace Types

/-- A bean that was built under its name. -/
def BuiltBean (contract : Contract) (bean : Bean) : Prop :=
  ∃ depth schema w w', buildBean contract (mapWithin contract depth) bean.name schema w =
    .ok () w' ∧ Table.get? w'.tables.beans bean.name = some bean

end Types

/-- An invariant that every single change of the tables keeps, where beans are entered under names
with a property that all given names have. -/
structure TypeTables.Upheld (contract : Contract) (G : String → Prop) (I : TypeTables → Prop) :
    Prop where
  given : ∀ owner role, Yields I (fun _ => false) G (Types.synthesizeName owner role)
  component : ∀ t c n, I t → Table.get? t.typeNames c = some n → G n
  bean : ∀ t bean, I t → G bean.name → Types.BuiltBean contract bean → I (Types.withBean t bean)
  enum : ∀ t enum, I t → I (Types.withEnum t enum)
  resolving : ∀ (t : TypeTables) resolving, I t → I { t with resolving }
  aliases : ∀ (t : TypeTables) aliases, I t → I { t with aliases }
  failed : ∀ (t : TypeTables) failed, I t → I { t with failed }
  rollback : ∀ t u : TypeTables, I t → I u → I (u.rollback t.mark)
  start : ∀ t, I (Types.startPass contract t)

namespace TypeTables.Upheld

variable {contract : Contract} {map : Types.Mapping} {depth : ℕ} {G : String → Prop}
  {I : TypeTables → Prop}

/-- A way to map that keeps an invariant. -/
abbrev Keeping (I : TypeTables → Prop) (map : Types.Mapping) : Prop :=
  ∀ schema owner role, Guards I (fun _ => false) (map schema owner role)

theorem buildEnum (h : Upheld contract G I) (name : String) (schema : Schema)
    (values : List Tree) : Guards I (fun _ => false) (Types.buildEnum name schema values) :=
  .modifyTables fun t ht => h.enum t (Types.enumOf name schema values) ht

theorem buildBean (h : Upheld contract G I) (hmap : Keeping I (Types.mapWithin contract depth))
    {name : String} (given : G name) (schema : Schema) :
    Guards I (fun _ => false)
      (Types.buildBean contract (Types.mapWithin contract depth) name schema) := by
  intro w hw
  have hfields : ∀ merged : Merged, I (outcome (merged.properties.mapM
      (Types.beanField (Types.mapWithin contract depth) name merged.required) w)).2 :=
    fun merged => (Yields.mapM (fun p _ => .map (hmap _ name p.1)) w hw).2
  cases hrun : Types.buildBean contract (Types.mapWithin contract depth) name schema w with
  | ok _ w' =>
    refine ⟨trivial, ?_⟩
    obtain ⟨merged, fields, v, -, hmapped, ht⟩ := Types.buildBean_eq_ok hrun
    have hv := hfields merged
    rw [hmapped] at hv
    rw [outcome_ok, ht]
    refine h.bean _ _ hv given ⟨depth, schema, w, w', hrun, ?_⟩
    rw [ht]
    exact Table.get?_put_self _ _ _
  | error e w' =>
    refine ⟨rfl, ?_⟩
    rcases bind_eq_error.mp hrun with herror | ⟨merged, v, hlift, herror⟩
    · rw [outcome_error, ← (lift_eq_error.mp herror).2]
      exact hw
    · obtain ⟨-, rfl⟩ := lift_eq_ok.mp hlift
      rcases bind_eq_error.mp herror with herror | ⟨fields, u, -, herror⟩
      · have hv := hfields merged
        rwa [herror] at hv
      · cases herror

theorem resolveAlias (h : Upheld contract G I) (hmap : Keeping I map)
    (name javaName location : String) (schema : Schema) :
    Guards I (fun _ => false) (Types.resolveAlias map name javaName location schema) := by
  refine .bind .tables fun t _ => ?_
  split
  · exact .pure trivial
  · split
    · exact .fail rfl
    · refine .bind (.modifyTables fun t ht => h.resolving t _ ht) fun _ _ => ?_
      refine .bind (.afterwards (hmap _ javaName _) fun t ht => h.resolving t _ ht) fun type _ => ?_
      exact .bind (.modifyTables fun t ht => h.aliases t _ ht) fun _ _ => .pure trivial

theorem referenceWith (h : Upheld contract G I) (hmap : Keeping I map) (name location : String) :
    Guards I (fun _ => false) (Types.referenceWith contract map name location) := by
  refine .bind .tables fun t _ => ?_
  split
  · exact .fail rfl
  · refine .bind (.lift_any _) fun schema _ => ?_
    refine .bind (.lift_any _) fun javaName _ => ?_
    split
    · exact .lift_any _
    · split
      · exact .pure trivial
      · exact .pure trivial
      · exact h.resolveAlias hmap name javaName location schema

theorem mapNode (h : Upheld contract G I) (hmap : Keeping I (Types.mapWithin contract depth)) :
    Keeping I (Types.mapNode contract (Types.mapWithin contract depth)) := by
  intro schema owner role
  cases schema with
  | none => exact .pure trivial
  | some s =>
    unfold Types.mapNode
    dsimp only
    split
    · exact .lift_any _
    · cases s with
      | reference location target => exact h.referenceWith hmap target location
      | unsupported => exact .fail rfl
      | primitive => exact .map (.lift_any _)
      | binary => exact .pure trivial
      | any => exact .pure trivial
      | array => exact .map (hmap _ owner _)
      | map => exact .map (hmap _ owner _)
      | enumeration => exact .bind (h.given owner role) fun name _ => .map (h.buildEnum name _ _)
      | object =>
        dsimp only
        split
        · exact .pure trivial
        · exact .bind (h.given owner role) fun name given => .map (h.buildBean hmap given _)

theorem mapWithin (h : Upheld contract G I) (depth : ℕ) :
    Keeping I (Types.mapWithin contract depth) := by
  induction depth with
  | zero => exact fun _ _ _ => .fail rfl
  | succ depth ih => exact h.mapNode ih

theorem mapSchema (h : Upheld contract G I) : Keeping I (Types.mapSchema contract) :=
  fun schema owner role => h.mapWithin _ schema owner role

theorem reference (h : Upheld contract G I) (name location : String) :
    Guards I (fun _ => false) (Types.reference contract name location) :=
  h.referenceWith (h.mapWithin _) name location

theorem mapComponent (h : Upheld contract G I) (name : String) (schema : Schema) :
    Guards I (fun _ => false) (Types.mapComponent contract name schema) := by
  refine .bind .tables fun t ht => ?_
  have hname : (need .missing (Table.get? t.typeNames name)).Yields (fun _ => false) G :=
    (Outcome.Yields.need fun _ => rfl).weaken fun javaName => h.component t name javaName ht
  refine .bind (.lift hname) fun javaName given => ?_
  split
  · exact .pure trivial
  · split
    · exact h.buildBean (h.mapWithin _) given _
    · exact h.buildEnum javaName _ _
    · exact .map (h.reference name _)

theorem mapComponents (h : Upheld contract G I) (components : List (String × Schema)) :
    Guards I (fun _ => false) (Types.mapComponents contract components) := by
  induction components with
  | nil => exact .pure trivial
  | cons c rest ih =>
    unfold Types.mapComponents
    refine .bind .tables fun t ht => ?_
    split
    · exact ih
    · refine .bind (.attempt (h.mapComponent c.1 c.2)) fun result _ => ?_
      split
      · exact ih
      · refine .map (.bind (.modifyTables fun u hu => ?_) fun _ _ => .record _)
        exact h.failed _ _ (h.rollback t u ht hu)

theorem buildTables (h : Upheld contract G I) :
    Guards I (fun _ => false) (Types.buildTables contract) := by
  have hpasses : ∀ passes, Guards I (fun _ => false) (Types.buildPasses contract passes) := by
    intro passes
    induction passes with
    | zero => exact .fail rfl
    | succ passes ih =>
      refine .bind (.modifyTables fun t _ => h.start t) fun _ _ => ?_
      refine .bind (h.mapComponents _) fun complete _ => ?_
      split
      · exact .pure trivial
      · exact ih
  refine .bind (hpasses _) fun _ _ => .bind .tables fun t _ => ?_
  exact .bind (.record _) fun _ _ => .pure trivial

theorem resolve (h : Upheld contract G I) {settings : Settings} (op : Operation)
    (method : String) :
    Guards I (fun _ => false) (Signature.resolve contract settings op method) := by
  refine .bind .tables fun t ht => ?_
  refine .bind (.attempt (Signature.build_of Yields.compositional h.mapSchema op method))
    fun result _ => ?_
  split
  · exact .pure trivial
  · exact .bind (.modifyTables fun u hu => h.rollback t u ht hu) fun _ _ => .fail rfl

end TypeTables.Upheld

end ApiContract
