import ApiContract.Proofs.Contract.Closed
import ApiContract.Proofs.Types.WellNamed
import ApiContract.Proofs.Yields

/-! # Names that are looked up

Mapping looks up components under the names that references have, and the type names of
components. Where references lead to components and every component has a type name, no such
lookup misses. Nor is there a leaf that mapping cannot work with where all leaves have their
types. The tables keep the type names whatever is mapped, also schemas from elsewhere: for
those, no kind of failure is excluded.
-/
namespace ApiContract

def Failure.isMissing : Failure → Bool
  | missing => true
  | _ => false

/-- Every component has a type name. -/
def Listed (contract : Contract) (t : TypeTables) : Prop :=
  ∀ c ∈ Table.keys contract.schemas, ∃ name, Table.get? t.typeNames c = some name

theorem listed_reset (contract : Contract) (t : TypeTables) : Listed contract (t.reset contract) :=
  fun _ hc => TypeTables.exists_get?_reserveAll (Or.inr hc)

namespace Schema

/-- The format of a primitive, which may be null. -/
def format? : Schema → Option Tree
  | primitive _ _ format => some format
  | _ => none

/-- A node whose leaves have their types: the name that stands for it and those of its
properties are texts, and so is its format if it has one. -/
structure TypedLeaves (n : Schema) : Prop where
  external : n.isExternal = true → n.external.text?.isSome = true
  format : ∀ f ∈ n.format?, f.isNull = true ∨ f.text?.isSome = true
  properties : ∀ p ∈ n.properties, p.1.text?.isSome = true

instance (n : Schema) : Decidable n.TypedLeaves :=
  decidable_of_iff (_ ∧ _ ∧ _) ⟨fun h => ⟨h.1, h.2.1, h.2.2⟩, fun h => ⟨h.1, h.2, h.3⟩⟩

/-- A schema in which all leaves have their types. -/
def WellTyped (s : Schema) : Prop := ∀ n ∈ s.nodes, n.TypedLeaves

instance (s : Schema) : Decidable s.WellTyped :=
  inferInstanceAs (Decidable (∀ n ∈ s.nodes, n.TypedLeaves))

end Schema

/-- A schema that none of the failures that are excluded can come from: its references lead to
components if lookups are not to miss, and its leaves have their types if these are to be met. -/
structure Reaching (contract : Contract) (kind : Failure → Bool) (s : Schema) : Prop where
  within : kind .missing = true → s.Within (Table.keys contract.schemas)
  typed : kind .illTyped = true → s.WellTyped

/-- The failures that can be excluded: no faults of schemas and no expansions without end, and
of the others only such as no component gives rise to. -/
structure Excludes (contract : Contract) (kind : Failure → Bool) : Prop where
  schema : ∀ fault location, kind (.schema fault location) = false
  endless : kind .endless = false
  components : ∀ s ∈ Table.values contract.schemas, Reaching contract kind s

/-- A property that goes over from schemas to their parts, and one that it gives the names of
properties. All components have it, and it lets no lookup miss that is excluded. -/
structure Hereditary (contract : Contract) (kind : Failure → Bool) (K : Scalar → Prop)
    (Q : Schema → Prop) : Prop where
  schema : ∀ fault location, kind (.schema fault location) = false
  endless : kind .endless = false
  component : ∀ s ∈ Table.values contract.schemas, Q s
  part : ∀ s, Q s → ∀ p ∈ s.parts, Q p
  name : ∀ s, Q s → ∀ p ∈ s.properties, K p.1
  within : ∀ s, Q s → kind .missing = true → s.Within (Table.keys contract.schemas)

/-- The name is a text if types are to be met. -/
def Spelled (kind : Failure → Bool) (name : Scalar) : Prop :=
  kind .illTyped = true → name.text?.isSome = true

variable {contract : Contract} {kind : Failure → Bool} {s : Schema}

theorem spelled_text (text : String) : Spelled kind (.text text) := fun _ => rfl

theorem Reaching.part (h : Reaching contract kind s) {p : Schema} (hp : p ∈ s.parts) :
    Reaching contract kind p where
  within hm := (Schema.within_iff.mp (h.within hm)).2 p hp
  typed ht n hn := h.typed ht n (Schema.nodes_subset_of_mem_parts hp hn)

theorem Reaching.leaves (h : Reaching contract kind s) (ht : kind .illTyped = true) :
    s.TypedLeaves := h.typed ht s (Schema.self_mem_nodes s)

theorem Reaching.target {location target : String}
    (h : Reaching contract kind (.reference location target)) (hm : kind .missing = true) :
    target ∈ Table.keys contract.schemas :=
  (Schema.within_iff.mp (h.within hm)).1 location target rfl

theorem Reaching.missing (h : s.Within (Table.keys contract.schemas)) :
    Reaching contract Failure.isMissing s where
  within _ := h
  typed ht := nomatch ht

theorem Reaching.nothing (contract : Contract) (s : Schema) :
    Reaching contract (fun _ => false) s where
  within hm := nomatch hm
  typed ht := nomatch ht

namespace Excludes

theorem hereditary (hk : Excludes contract kind) :
    Hereditary contract kind (Spelled kind) (Reaching contract kind) where
  schema := hk.schema
  endless := hk.endless
  component := hk.components
  part _ h _ hp := h.part hp
  name _ h p hp ht := (h.leaves ht).properties p hp
  within _ h := h.within

theorem missing (h : contract.Closed) : Excludes contract Failure.isMissing where
  schema _ _ := rfl
  endless := rfl
  components s hs := .missing (h s (List.mem_append_left _ hs))

theorem nothing (contract : Contract) : Excludes contract fun _ => false where
  schema _ _ := rfl
  endless := rfl
  components s _ := .nothing contract s

end Excludes

theorem Listed.yields_typeName {t : TypeTables} (ht : Listed contract t) {name : String}
    (hname : kind .missing = true → name ∈ Table.keys contract.schemas) :
    (need .missing (Table.get? t.typeNames name)).Yields kind fun javaName =>
      Table.get? t.typeNames name = some javaName := by
  refine .need fun hnone => Bool.eq_false_iff.mpr fun hm => ?_
  obtain ⟨javaName, hjava⟩ := ht name (hname hm)
  cases hjava.symm.trans hnone

theorem yields_schema? {name : String}
    (hname : kind .missing = true → name ∈ Table.keys contract.schemas) :
    (need .missing (contract.schema? name)).Yields kind fun s =>
      contract.schema? name = some s := by
  refine .need fun hnone => Bool.eq_false_iff.mpr fun hm => ?_
  exact Table.get?_eq_none_iff.mp hnone (hname hm)

section Hereditary

variable {K : Scalar → Prop} {Q : Schema → Prop} (hQ : Hereditary contract kind K Q)
include hQ

theorem Hereditary.of_schema? {name : String} (h : contract.schema? name = some s) : Q s :=
  hQ.component s (Table.mem_values.mpr ⟨_, Table.mem_of_get? h, rfl⟩)

namespace Contract

theorem yields_targetWithin (fuel : ℕ) (seen : List String)
    (hs : Q s) : (contract.targetWithin fuel seen s).Yields kind Q := by
  induction fuel generalizing seen s with
  | zero => exact .error hQ.endless
  | succ fuel ih =>
    unfold targetWithin
    split
    · next location name =>
      split
      · exact .ok hs
      · split
        · exact .error (hQ.schema _ _)
        · have hname := fun hm => (Schema.within_iff.mp (hQ.within _ hs hm)).1 location name rfl
          exact (yields_schema? hname).bind fun next hnext => ih _ (hQ.of_schema? hnext)
    · exact .ok hs

theorem yields_target (hs : Q s) : (contract.target s).Yields kind Q :=
  yields_targetWithin hQ _ _ hs

end Contract

namespace Merged

omit hQ in
/-- The properties of a merged object and their names have the given properties. -/
def Holds (K : Scalar → Prop) (Q : Schema → Prop) (merged : Merged) : Prop :=
  ∀ p ∈ merged.properties, K p.1 ∧ Q p.2

omit hQ in
theorem Holds.append {a b : Merged} (ha : a.Holds K Q) (hb : b.Holds K Q) :
    (a.append b).Holds K Q := by
  have hfold : ∀ (properties : List (Scalar × Schema)) (t : Table Scalar Schema),
      (∀ p ∈ properties, K p.1 ∧ Q p.2) → (∀ p ∈ t, K p.1 ∧ Q p.2) →
      ∀ p ∈ properties.foldl (fun t p => Table.put t p.1 p.2) t, K p.1 ∧ Q p.2 := by
    intro properties
    induction properties with
    | nil => exact fun t _ ht => ht
    | cons q rest ih =>
      intro t hp ht
      obtain ⟨hq, hrest⟩ := List.forall_mem_cons.mp hp
      exact ih _ hrest (Table.forall_mem_put ht hq)
  exact hfold b.properties a.properties hb ha

theorem yields_enter {seen : List String} {member : Schema}
    (hs : Q member) : (enter contract seen member).Yields kind fun entered => Q entered.1 := by
  unfold enter
  split
  · split
    · exact .error (hQ.schema _ _)
    · exact (Contract.yields_target hQ hs).bind fun t ht => .pure ht
  · exact .ok hs

theorem yields_ofSchemaWithin (fuel : ℕ) (seen : List String)
    (hs : Q s) : (ofSchemaWithin contract fuel seen s).Yields kind (Holds K Q) := by
  induction fuel generalizing seen s with
  | zero => exact .error hQ.endless
  | succ fuel ih =>
    unfold ofSchemaWithin
    split
    · next notes properties required members =>
      have hmembers : (members.foldlM (addMember contract (ofSchemaWithin contract fuel))
          { seen }).Yields kind fun state => state.merged.Holds K Q := by
        refine .foldlM (fun state hstate member hmember => ?_) (by simp [Holds])
        have hm := hQ.part _ hs member (List.mem_append_right (properties.map Prod.snd) hmember)
        refine (yields_enter hQ hm).bind fun entered hentered => ?_
        dsimp only
        split
        · next hobject =>
          refine (ih entered.2 (hobject ▸ hentered)).bind fun part hpart => ?_
          exact .pure (hstate.append hpart)
        · exact .error (hQ.schema _ _)
      refine hmembers.bind fun final hfinal => .pure (hfinal.append fun p hp => ?_)
      exact ⟨hQ.name _ hs p hp,
        hQ.part _ hs p.2 (List.mem_append_left members (List.mem_map_of_mem hp))⟩
    · exact .ok (by simp [Holds])

theorem yields_ofSchema (hs : Q s) : (ofSchema contract s).Yields kind (Holds K Q) :=
  yields_ofSchemaWithin hQ _ _ hs

end Merged

end Hereditary

theorem Contract.yields_isBinary (hk : Excludes contract kind) {schema : Option Schema}
    (hs : ∀ s, schema = some s → Reaching contract kind s) :
    (contract.isBinary schema).Yields kind fun _ => True := by
  cases schema with
  | none => exact .ok trivial
  | some s =>
    refine (yields_target hk.hereditary (hs s rfl)).bind fun t _ => ?_
    split
    · exact .pure trivial
    · exact .pure trivial

theorem Schema.mem_parts_of_element {p : Schema} (h : s.items? = some p ∨ s.value? = some p) :
    p ∈ s.parts := by
  cases s with
  | array n items =>
    obtain rfl : items = p := by simpa [items?, value?] using h
    exact List.mem_cons_self
  | map n value =>
    obtain rfl : value = p := by simpa [items?, value?] using h
    exact List.mem_cons_self
  | _ => simp [items?, value?] at h

namespace Types

open Step

section Node

variable {I : TypeTables → Prop} {map : Mapping}

/-- Tables with the invariant may get new names, beans and enums. -/
structure Admits (I : TypeTables → Prop) : Prop where
  name : ∀ t name, I t → I (t.take name)
  bean : ∀ t bean, I t → I (withBean t bean)
  enum : ∀ t enum, I t → I (withEnum t enum)

/-- A node for which mapping keeps the invariant and does not fail as is excluded, where this
is so for what mapping the node comes to. -/
structure Guarded (contract : Contract) (I : TypeTables → Prop) (kind : Failure → Bool)
    (map : Mapping) (s : Schema) : Prop where
  schema : ∀ fault location, kind (.schema fault location) = false
  leaves : kind .illTyped = true → s.TypedLeaves
  reference : ∀ location name, s = .reference location name →
    Guards I kind (referenceWith contract map name location)
  element : s.isExternal = false → ∀ p, s.items? = some p ∨ s.value? = some p →
    ∀ owner role, Guards I kind (map (some p) owner (.text role))
  properties : s.isExternal = false → (Merged.ofSchema contract s).Yields kind fun merged =>
    ∀ p ∈ merged.properties, ∀ owner, Guards I kind (map (some p.2) owner p.1)

theorem guards_externalType {name : Tree}
    (hname : kind .illTyped = true → name.text?.isSome = true) :
    Guards I kind (externalType name) :=
  .lift (.of_avoids (.map (.need_some hname) _))

theorem avoids_formatText {format : Tree}
    (hformat : kind .illTyped = true → format.isNull = true ∨ format.text?.isSome = true) :
    (formatText format).Avoids kind := by
  unfold formatText
  split
  · exact .ok _
  · exact .ok _
  · next hscalar =>
    refine .error (Bool.eq_false_iff.mpr fun ht => ?_)
    cases format with
    | scalar x => exact hscalar x rfl
    | _ => exact (hformat ht).elim nofun nofun

theorem guards_synthesizeName (hI : Admits I) (owner : String) {role : Scalar}
    (hrole : Spelled kind role) : Guards I kind (synthesizeName owner role) := by
  have hname : (roleName role).Avoids kind := by
    unfold roleName
    split
    · exact .map (.need_some hrole) _
    · exact .ok _
  refine .bind (.lift (.of_avoids hname)) fun half _ => ?_
  refine .bind .tables fun t _ => ?_
  exact .bind (.modifyTables fun t ht => hI.name t _ ht) fun _ _ => .pure trivial

theorem guards_buildEnum (hI : Admits I) (name : String) (schema : Schema) (values : List Tree) :
    Guards I kind (buildEnum name schema values) :=
  .modifyTables fun t ht => hI.enum t (enumOf name schema values) ht

theorem guards_buildBean (hI : Admits I) (name : String)
    (hmerged : (Merged.ofSchema contract s).Yields kind fun merged =>
      ∀ p ∈ merged.properties, ∀ owner, Guards I kind (map (some p.2) owner p.1)) :
    Guards I kind (buildBean contract map name s) := by
  refine .bind (.lift hmerged) fun merged hproperties => ?_
  refine .bind (.mapM fun p hp => .map (hproperties p hp name)) fun fields _ => ?_
  exact .bind (.modifyTables fun t ht => hI.bean t (beanOf name s fields) ht) fun _ _ => .record _

theorem Guarded.mapNode (h : Guarded contract I kind map s) (hI : Admits I) (owner : String)
    {role : Scalar} (hrole : Spelled kind role) :
    Guards I kind (Types.mapNode contract map (some s) owner role) := by
  unfold Types.mapNode
  dsimp only
  split
  · next hx => exact guards_externalType fun ht => (h.leaves ht).external hx
  · next hx =>
    replace hx := Bool.not_eq_true _ ▸ hx
    cases s with
    | reference location name => exact h.reference location name rfl
    | unsupported => exact .fail (h.schema _ _)
    | primitive n type format =>
      exact .map (.lift (.of_avoids (avoids_formatText fun ht =>
        (h.leaves ht).format format rfl)))
    | binary => exact .pure trivial
    | any => exact .pure trivial
    | array n items => exact .map (h.element hx items (Or.inl rfl) owner _)
    | map n value => exact .map (h.element hx value (Or.inr rfl) owner _)
    | enumeration n type values =>
      refine .bind (guards_synthesizeName hI owner hrole) fun name _ => ?_
      exact .map (guards_buildEnum hI name _ values)
    | object n properties required members =>
      dsimp only
      split
      · exact .pure trivial
      · refine .bind (guards_synthesizeName hI owner hrole) fun name _ => ?_
        exact .map (guards_buildBean hI name (h.properties hx))

end Node

theorem admits_listed (contract : Contract) : Admits (Listed contract) where
  name _ _ ht := ht
  bean _ _ ht := ht
  enum _ _ ht := ht

/-- A way to map that keeps every component listed and does not fail as is excluded. -/
def Finding (contract : Contract) (kind : Failure → Bool) (map : Mapping) : Prop :=
  ∀ schema owner role, (∀ s, schema = some s → Reaching contract kind s) → Spelled kind role →
    Guards (Listed contract) kind (map schema owner role)

variable {map : Mapping}

theorem Finding.part (hmap : Finding contract kind map) {p : Schema} (hs : Reaching contract kind p)
    (owner : String) {role : Scalar} (hrole : Spelled kind role) :
    Guards (Listed contract) kind (map (some p) owner role) := by
  refine hmap _ owner role ?_ hrole
  rintro _ ⟨⟩
  exact hs

theorem Finding.properties (hmap : Finding contract kind map) (hk : Excludes contract kind)
    (hs : Reaching contract kind s) : (Merged.ofSchema contract s).Yields kind fun merged =>
      ∀ p ∈ merged.properties, ∀ owner, Guards (Listed contract) kind (map (some p.2) owner p.1) :=
  (Merged.yields_ofSchema hk.hereditary hs).weaken fun _ hmerged p hp owner =>
    hmap.part (hmerged p hp).2 owner (hmerged p hp).1

theorem guards_resolveAlias (hk : Excludes contract kind) (hmap : Finding contract kind map)
    (name javaName location : String) (hs : Reaching contract kind s) :
    Guards (Listed contract) kind (resolveAlias map name javaName location s) := by
  refine .bind .tables fun t _ => ?_
  split
  · exact .pure trivial
  · split
    · exact .fail (hk.schema _ _)
    · refine .bind (.modifyTables fun _ ht => ht) fun _ _ => ?_
      refine .bind (.afterwards (hmap.part hs javaName (spelled_text "")) fun _ ht => ht)
        fun type _ => ?_
      exact .bind (.modifyTables fun _ ht => ht) fun _ _ => .pure trivial

theorem guards_referenceWith (hk : Excludes contract kind) (hmap : Finding contract kind map)
    {name : String} (hname : kind .missing = true → name ∈ Table.keys contract.schemas)
    (location : String) :
    Guards (Listed contract) kind (referenceWith contract map name location) := by
  refine .bind .tables fun t ht => ?_
  split
  · exact .fail (hk.schema _ _)
  · refine .bind (.lift (yields_schema? hname)) fun s hs => ?_
    refine .bind (.lift (ht.yields_typeName hname)) fun javaName _ => ?_
    have hreaching := hk.hereditary.of_schema? hs
    split
    · next hx => exact guards_externalType fun ht => (hreaching.leaves ht).external hx
    · split
      · exact .pure trivial
      · exact .pure trivial
      · exact guards_resolveAlias hk hmap name javaName location hreaching

theorem Finding.guarded (hmap : Finding contract kind map) (hk : Excludes contract kind)
    (hs : Reaching contract kind s) : Guarded contract (Listed contract) kind map s where
  schema := hk.schema
  leaves := hs.leaves
  reference := by
    rintro location name rfl
    exact guards_referenceWith hk hmap hs.target location
  element := by
    rintro - p hp owner role
    exact hmap.part (hs.part (Schema.mem_parts_of_element hp)) owner (spelled_text role)
  properties _ := hmap.properties hk hs

theorem finding_mapNode (hk : Excludes contract kind) (hmap : Finding contract kind map) :
    Finding contract kind (mapNode contract map) := by
  intro schema owner role hs hrole
  cases schema with
  | none => exact .pure trivial
  | some s => exact (hmap.guarded hk (hs s rfl)).mapNode (admits_listed contract) owner hrole

theorem finding_mapWithin (hk : Excludes contract kind) (depth : ℕ) :
    Finding contract kind (mapWithin contract depth) := by
  induction depth with
  | zero => exact fun _ _ _ _ _ => .fail hk.endless
  | succ depth ih => exact finding_mapNode hk ih

theorem finding_mapSchema (hk : Excludes contract kind) :
    Finding contract kind (mapSchema contract) :=
  fun schema owner role hs hrole => finding_mapWithin hk _ schema owner role hs hrole

theorem guards_reference (hk : Excludes contract kind) {name : String}
    (hname : kind .missing = true → name ∈ Table.keys contract.schemas) (location : String) :
    Guards (Listed contract) kind (reference contract name location) :=
  guards_referenceWith hk (finding_mapWithin hk _) hname location

theorem guards_mapComponent (hk : Excludes contract kind) {c : String × Schema}
    (hc : c ∈ contract.schemas) :
    Guards (Listed contract) kind (mapComponent contract c.1 c.2) := by
  have hname := Table.mem_keys_of_mem hc
  have hs := hk.components c.2 (Table.mem_values.mpr ⟨c, hc, rfl⟩)
  refine .bind .tables fun t ht => ?_
  refine .bind (.lift (ht.yields_typeName fun _ => hname)) fun javaName _ => ?_
  split
  · exact .pure trivial
  · split
    · exact guards_buildBean (admits_listed contract) javaName
        ((finding_mapWithin hk _).properties hk (by assumption))
    · exact guards_buildEnum (admits_listed contract) javaName _ _
    · exact .map (guards_reference hk (fun _ => hname) _)

theorem guards_failComponent (mark : TypeTables.Mark) (name : String) (fault : Fault) :
    Guards (Listed contract) kind (failComponent mark name fault) :=
  .bind (.modifyTables fun _ ht => ht) fun _ _ => .record _

theorem guards_mapComponents (hk : Excludes contract kind) {components : List (String × Schema)}
    (hc : ∀ c ∈ components, c ∈ contract.schemas) :
    Guards (Listed contract) kind (mapComponents contract components) := by
  induction components with
  | nil => exact .pure trivial
  | cons c rest ih =>
    have hrest := ih fun d hd => hc d (List.mem_cons_of_mem _ hd)
    unfold mapComponents
    refine .bind .tables fun t _ => ?_
    split
    · exact hrest
    · refine .bind (.attempt (guards_mapComponent hk (hc c List.mem_cons_self))) fun r _ => ?_
      split
      · exact hrest
      · exact .map (guards_failComponent _ _ _)

theorem guards_buildPasses (hk : Excludes contract kind) (passes : ℕ) :
    Guards (Listed contract) kind (buildPasses contract passes) := by
  induction passes with
  | zero => exact .fail hk.endless
  | succ passes ih =>
    refine .bind (.modifyTables fun t _ => listed_reset contract t) fun _ _ => ?_
    refine .bind (guards_mapComponents hk fun c hc => hc) fun complete _ => ?_
    split
    · exact .pure trivial
    · exact ih

theorem guards_buildTables (hk : Excludes contract kind) :
    Guards (Listed contract) kind (buildTables contract) := by
  refine .bind (guards_buildPasses hk _) fun _ _ => .bind .tables fun t _ => ?_
  exact .bind (.record _) fun _ _ => .pure trivial

end Types

end ApiContract
