import Mathlib.Data.List.Perm.Subperm
import Mathlib.Logic.Relation
import ApiContract.Proofs.Types.Flattened
import ApiContract.Proofs.Types.Steady

/-! # Expansions without end

Where a schema is mapped, its elements are, and an object is with the properties that it is
merged from, which the components behind its members have. So an object can come to itself
again: a member leads to a component, and a property that is taken over from there holds an
object with the same member. Once the tables are built there is no other way to go on for
ever, as each reference is looked up. The nodes that mapping comes to are those of the schema
and of the components, and a path longer than all of them has been at one of them before.
-/
namespace ApiContract

open Relation

def Failure.isEndless : Failure → Bool
  | endless => true
  | _ => false

theorem Outcome.Avoids.endless {α : Type} {o : Outcome α} (h : o.Avoids Failure.isStray) :
    o.Avoids Failure.isEndless := by
  intro e he
  have hstray := h e he
  cases e with
  | endless => cases hstray
  | _ => rfl

/-- What mapping a schema goes on to: the elements of rows and of maps, and the properties that
an object is merged from. -/
inductive Expands (contract : Contract) : Schema → Schema → Prop
  | element {s p : Schema} (own : s.isExternal = false)
      (element : s.items? = some p ∨ s.value? = some p) : Expands contract s p
  | property {s : Schema} {merged : Merged} {p : Scalar × Schema} (own : s.isExternal = false)
      (merges : Merged.ofSchema contract s = .ok merged) (member : p ∈ merged.properties) :
      Expands contract s p.2

/-- The schema comes to one that comes to itself again. -/
def Schema.Endless (contract : Contract) (s : Schema) : Prop :=
  ∃ n, ReflTransGen (Expands contract) s n ∧ TransGen (Expands contract) n n

/-- Mapping the schema can go on that many times. -/
def Schema.Deep (contract : Contract) : ℕ → Schema → Prop
  | 0, _ => True
  | depth + 1, s => ∃ p, Expands contract s p ∧ Deep contract depth p

variable {contract : Contract} {s n : Schema}

namespace Contract

/-- The nodes that mapping the schema can come to. -/
def nodesWith (contract : Contract) (s : Schema) : List Schema :=
  s.nodes ++ (Table.values contract.schemas).flatMap Schema.nodes

theorem length_nodesWith (contract : Contract) (s : Schema) :
    (contract.nodesWith s).length = s.nodes.length + contract.nodeCount := by
  rw [nodesWith, List.length_append, List.length_flatMap, nodeCount, ← List.sum_eq_foldl_nat,
    Table.values, List.map_map]
  rfl

theorem mem_nodesWith_of_mem_parts {p : Schema} (hn : n ∈ contract.nodesWith s)
    (hp : p ∈ n.parts) : p ∈ contract.nodesWith s := by
  have hself := Schema.nodes_subset_of_mem_parts hp p.self_mem_nodes
  rcases List.mem_append.mp hn with hn | hn
  · exact List.mem_append_left _ (Schema.nodes_subset hn hself)
  · obtain ⟨c, hc, hn⟩ := List.mem_flatMap.mp hn
    exact List.mem_append_right _ (List.mem_flatMap.mpr ⟨c, hc, Schema.nodes_subset hn hself⟩)

theorem hereditary_nodesWith (contract : Contract) (s : Schema) :
    Hereditary contract (fun _ => false) (fun _ => True) (· ∈ contract.nodesWith s) where
  schema _ _ := rfl
  endless := rfl
  component c hc :=
    List.mem_append_right _ (List.mem_flatMap.mpr ⟨c, hc, c.self_mem_nodes⟩)
  part _ hn _ hp := mem_nodesWith_of_mem_parts hn hp
  name _ _ _ _ := trivial
  within _ _ hm := nomatch hm

end Contract

theorem Expands.mem_nodesWith {p : Schema} (h : Expands contract n p)
    (hn : n ∈ contract.nodesWith s) : p ∈ contract.nodesWith s := by
  cases h with
  | element _ element =>
    exact Contract.mem_nodesWith_of_mem_parts hn (Schema.mem_parts_of_element element)
  | property _ merges member =>
    have hmerged := Merged.yields_ofSchema (contract.hereditary_nodesWith s) hn
    rw [merges] at hmerged
    exact (hmerged _ member).2

theorem Merged.properties_of_ofSchemaWithin {fuel : ℕ} {seen : List String} {merged : Merged}
    (h : ofSchemaWithin contract fuel seen s = .ok merged) (leaf : s.parts = []) :
    merged.properties = [] := by
  cases fuel with
  | zero => cases h
  | succ fuel =>
    cases s with
    | object n properties required members =>
      obtain ⟨hproperties, rfl⟩ := List.append_eq_nil_iff.mp leaf
      rw [List.map_eq_nil_iff] at hproperties
      cases h
      rw [hproperties]
      rfl
    | _ =>
      cases h
      rfl

theorem Expands.parts_ne_nil {p : Schema} (h : Expands contract s p) : s.parts ≠ [] := by
  intro leaf
  cases h with
  | element _ element =>
    have hp := Schema.mem_parts_of_element element
    rw [leaf] at hp
    cases hp
  | property _ merges member =>
    rw [Merged.properties_of_ofSchemaWithin merges leaf] at member
    cases member

namespace Schema

/-- Nothing is reached from a leaf, so that it would have to come to itself. -/
theorem not_endless_of_leaf (leaf : s.parts = []) : ¬s.Endless contract := by
  rintro ⟨n, reached, again⟩
  rcases reached.cases_head with rfl | ⟨p, hp, -⟩
  · obtain ⟨p, hp, -⟩ := TransGen.head'_iff.mp again
    exact hp.parts_ne_nil leaf
  · exact hp.parts_ne_nil leaf

/-- A path that is to go on as long as there are nodes comes to one that it has been at. -/
theorem Deep.exists_again {depth : ℕ} {path : List Schema} (deep : n.Deep contract depth)
    (reached : ReflTransGen (Expands contract) s n)
    (hpath : ∀ b ∈ n :: path, b ∈ contract.nodesWith s ∧ ReflTransGen (Expands contract) b n)
    (apart : (n :: path).Nodup) (long : (contract.nodesWith s).length ≤ path.length + depth) :
    s.Endless contract := by
  induction depth generalizing n path with
  | zero =>
    have hle := (List.subperm_of_subset apart fun b hb => (hpath b hb).1).length_le
    rw [List.length_cons] at hle
    omega
  | succ depth ih =>
    obtain ⟨p, hp, deep⟩ := deep
    have hnode := hp.mem_nodesWith (hpath n List.mem_cons_self).1
    by_cases hagain : p ∈ n :: path
    · exact ⟨p, reached.tail hp, .tail' (hpath p hagain).2 hp⟩
    · refine ih deep (reached.tail hp) (List.forall_mem_cons.mpr ⟨⟨hnode, .refl⟩, fun b hb => ?_⟩)
        (List.nodup_cons.mpr ⟨hagain, apart⟩) ?_
      · exact ⟨(hpath b hb).1, (hpath b hb).2.tail hp⟩
      · rw [List.length_cons]
        omega

theorem Endless.of_deep {depth : ℕ} (deep : s.Deep contract depth)
    (long : s.nodes.length + contract.nodeCount ≤ depth) : s.Endless contract := by
  have hself : s ∈ contract.nodesWith s := List.mem_append_left _ s.self_mem_nodes
  refine deep.exists_again .refl (List.forall_mem_singleton.mpr ⟨hself, .refl⟩)
    (List.nodup_singleton s) ?_
  rw [contract.length_nodesWith]
  simpa using long

end Schema

namespace Types

open TypeTables Step

variable {t : TypeTables} {map : Mapping}

theorem admits_lasts (t : TypeTables) : Admits t.Lasts where
  name _ _ hu := hu.trans
    { typeNames := rfl, failed := rfl, resolving := rfl,
      taken := fun _ h => List.mem_cons_of_mem _ h, aliases := fun _ _ h => h }
  bean _ _ hu := hu.trans ⟨frame_withBean _ _, fun _ _ h => h⟩
  enum _ _ hu := hu.trans ⟨frame_withEnum _ _, fun _ _ h => h⟩

/-- A reference is looked up, so that nothing is mapped for it. -/
theorem ends_referenceWith (known : AliasesKnown contract t) (map : Mapping)
    (name location : String) :
    Guards t.Lasts Failure.isEndless (referenceWith contract map name location) := by
  refine .bind .tables fun u hu => ?_
  split
  · exact .fail rfl
  · next hsound =>
    rw [hu.failed, Table.get?_eq_none_iff] at hsound
    refine .bind (.lift (.need fun _ => rfl)) fun s hs => ?_
    refine .bind (.lift (.of_avoids (.need rfl _))) fun javaName _ => ?_
    split
    · exact guards_externalType nofun
    · next hown =>
      have halias : s.isObject = false → s.isEnumeration = false →
          Guards t.Lasts Failure.isEndless (resolveAlias map name javaName location s) := by
        intro noObject noEnumeration
        obtain ⟨type, htype⟩ :=
          known name s ⟨hs, Bool.not_eq_true _ ▸ hown, noObject, noEnumeration⟩ hsound
        refine .bind .tables fun v hv => ?_
        rw [hv.aliases name type htype]
        exact .pure trivial
      cases s with
      | object => exact .pure trivial
      | enumeration => exact .pure trivial
      | _ => exact halias rfl rfl

/-- Where mapping what a node expands to ends, mapping the node does. -/
theorem ends_mapNode (known : AliasesKnown contract t)
    (hmap : ∀ p, Expands contract s p → ∀ owner role,
      Guards t.Lasts Failure.isEndless (map (some p) owner role)) (owner : String) (role : Scalar) :
    Guards t.Lasts Failure.isEndless (mapNode contract map (some s) owner role) := by
  have hguarded : Guarded contract t.Lasts Failure.isEndless map s :=
    { schema := fun _ _ => rfl
      leaves := nofun
      reference := fun location name _ => ends_referenceWith known map name location
      element := fun own p hp owner role => hmap p (.element own hp) owner (.text role)
      properties := fun own => by
        cases hmerges : Merged.ofSchema contract s with
        | ok merged => exact fun p hp owner => hmap p.2 (.property own hmerges hp) owner p.1
        | error e => exact (Merged.ofSchema_ends s).endless e hmerges }
  exact hguarded.mapNode (admits_lasts t) owner nofun

theorem ends_mapWithin (known : AliasesKnown contract t) {depth : ℕ}
    (shallow : ¬ s.Deep contract depth) (owner : String) (role : Scalar) :
    Guards t.Lasts Failure.isEndless (mapWithin contract depth (some s) owner role) := by
  induction depth generalizing s owner role with
  | zero => exact absurd trivial shallow
  | succ depth ih =>
    exact ends_mapNode known (fun p hp => ih fun deep => shallow ⟨p, hp, deep⟩) owner role

theorem ends_mapSchema (known : AliasesKnown contract t) (ends : ¬ s.Endless contract)
    (owner : String) (role : Scalar) :
    Guards t.Lasts Failure.isEndless (mapSchema contract (some s) owner role) := by
  refine ends_mapWithin known (fun deep => ends (.of_deep deep ?_)) owner role
  have hle : contract.nodeCount + s.nodes.length + 1 ≤ depthBound contract s.nodes.length :=
    Nat.le_mul_of_pos_right _ (Nat.succ_pos _)
  rw [ownNodes]
  omega

/-- An object made of a component that stands for an existing type. -/
def nextLink : Schema := .object { location := "#/next" } [] [] [.reference "#/next/0" "Link"]

/-- The component, with a property that is such an object again. -/
def linkContract : Contract :=
  { title := "Links", version := "1",
    schemas := [("Link", .object
      { location := "#/components/schemas/Link", external := .text "com.acme.Link" }
      [(.text "next", nextLink)] [] [])] }

example : nextLink.Endless linkContract :=
  have merges : Merged.ofSchema linkContract nextLink =
    .ok { properties := [(.text "next", nextLink)] } := rfl
  ⟨nextLink, .refl, .single (.property (p := (.text "next", nextLink)) rfl merges (by simp))⟩

end Types

end ApiContract
