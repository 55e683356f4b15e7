import Mathlib.Data.List.Perm.Basic
import ApiContract.Proofs.Types.Failures

/-! # The order of the components

Looking up a component, following references and merging objects give the same results
in any order of the components, so that the same sets are settled. As the failures are
the least settled set, the same components fail.
-/
namespace ApiContract

variable {c d : Contract}

theorem Contract.schema?_perm (distinct : (Table.keys c.schemas).Nodup)
    (perm : c.schemas.Perm d.schemas) (name : String) : c.schema? name = d.schema? name :=
  Table.get?_perm perm distinct name

theorem Contract.targetWithin_congr (h : ∀ name, c.schema? name = d.schema? name) (fuel : Nat)
    (seen : List String) (s : Schema) :
    c.targetWithin fuel seen s = d.targetWithin fuel seen s := by
  induction fuel generalizing seen s with
  | zero => rfl
  | succ fuel ih =>
    cases s with
    | reference location name =>
      simp only [Contract.targetWithin, h name]
      split
      · rfl
      · split
        · rfl
        · congr 1
          funext next
          exact ih (name :: seen) next
    | _ => rfl

theorem Contract.target_perm (distinct : (Table.keys c.schemas).Nodup)
    (perm : c.schemas.Perm d.schemas) (s : Schema) : c.target s = d.target s := by
  rw [Contract.target, Contract.target, perm.length_eq]
  exact Contract.targetWithin_congr (Contract.schema?_perm distinct perm) _ [] s

theorem Contract.nodeCount_perm (perm : c.schemas.Perm d.schemas) :
    c.nodeCount = d.nodeCount := by
  rw [Contract.nodeCount, Contract.nodeCount, ← List.sum_eq_foldl_nat, ← List.sum_eq_foldl_nat]
  exact (perm.map _).sum_nat

theorem Merged.enter_congr (h : ∀ s, c.target s = d.target s) (seen : List String)
    (member : Schema) : Merged.enter c seen member = Merged.enter d seen member := by
  cases member with
  | reference location name => simp only [Merged.enter, h]
  | _ => rfl

theorem Merged.ofSchemaWithin_congr (h : ∀ s, c.target s = d.target s) (fuel : Nat)
    (seen : List String) (s : Schema) :
    Merged.ofSchemaWithin c fuel seen s = Merged.ofSchemaWithin d fuel seen s := by
  induction fuel generalizing seen s with
  | zero => rfl
  | succ fuel ih =>
    have hmerge : Merged.ofSchemaWithin c fuel = Merged.ofSchemaWithin d fuel := by
      funext seen s
      exact ih seen s
    have hadd : Merged.addMember c (Merged.ofSchemaWithin c fuel) =
        Merged.addMember d (Merged.ofSchemaWithin d fuel) := by
      funext state member
      simp only [Merged.addMember, Merged.enter_congr h, hmerge]
    cases s with
    | object n properties required members => simp only [Merged.ofSchemaWithin, hadd]
    | _ => rfl

theorem Merged.ofSchema_perm (distinct : (Table.keys c.schemas).Nodup)
    (perm : c.schemas.Perm d.schemas) (s : Schema) :
    Merged.ofSchema c s = Merged.ofSchema d s := by
  rw [Merged.ofSchema, Merged.ofSchema, Contract.nodeCount_perm perm, perm.length_eq]
  exact Merged.ofSchemaWithin_congr (Contract.target_perm distinct perm) _ [] s

namespace Types

variable {F : String → Prop}

theorem merges_perm (distinct : (Table.keys c.schemas).Nodup) (perm : c.schemas.Perm d.schemas)
    {P : Schema → Prop} {s : Schema} (h : Merges c P s) : Merges d P s := by
  obtain ⟨merged, hm, hp⟩ := h
  exact ⟨merged, Merged.ofSchema_perm distinct perm s ▸ hm, hp⟩

theorem mappable_perm (distinct : (Table.keys c.schemas).Nodup) (perm : c.schemas.Perm d.schemas)
    {level : Nat} {s : Schema} (h : Mappable c F level s) : Mappable d F level s := by
  induction level generalizing s with
  | zero => exact h.elim
  | succ level ih =>
    have hnode : MappableNode c F (Mappable d F level) s := MappableNode.mono h fun t ht => ih ht
    rcases hnode with hx | hnode
    · exact Or.inl hx
    · right
      cases s with
      | reference location target =>
        exact ⟨hnode.1, fun t ht =>
          hnode.2 t ((Contract.schema?_perm distinct perm target).trans ht)⟩
      | object => exact hnode.imp id (merges_perm distinct perm)
      | _ => exact hnode

theorem Settled.perm (distinct : (Table.keys c.schemas).Nodup)
    (perm : c.schemas.Perm d.schemas) (h : Settled c F) : Settled d F where
  closed :=
    { unsupported := fun e he => h.closed.unsupported e (perm.mem_iff.mpr he)
      references := fun e he => h.closed.references e (perm.mem_iff.mpr he) }
  enterable := by
    intro e he hn
    rcases h.enterable e (perm.mem_iff.mpr he) hn with hx | hx | ⟨ho, level, hm⟩ | ⟨ho, level, hm⟩
    · exact Or.inl hx
    · exact Or.inr (Or.inl hx)
    · have hmerges : Merges c (Mappable d F level) e.2 :=
        hm.mono fun t ht => mappable_perm distinct perm ht
      exact Or.inr (Or.inr (Or.inl ⟨ho, level, merges_perm distinct perm hmerges⟩))
    · exact Or.inr (Or.inr (Or.inr ⟨ho, level, mappable_perm distinct perm hm⟩))

/-- The same components fail in any order in which the components are declared, and they
give as many diagnostics. As in any mapping no name is declared twice. -/
theorem buildTables_perm {ds ds' : List Diagnostic} {w w' : Workspace}
    (distinct : (Table.keys c.schemas).Nodup) (perm : c.schemas.Perm d.schemas)
    (hc : buildTables c (.fresh c) = .ok ds w) (hd : buildTables d (.fresh d) = .ok ds' w') :
    (∀ name, Table.has w.tables.failed name = Table.has w'.tables.failed name) ∧
      ds.length = ds'.length := by
  have distinct' : (Table.keys d.schemas).Nodup := (perm.map Prod.fst).nodup_iff.mp distinct
  obtain ⟨hsettled, hleast⟩ :=
    failed_least hc (by simp [Workspace.fresh]) (by simp [Workspace.fresh])
  obtain ⟨hsettled', hleast'⟩ :=
    failed_least hd (by simp [Workspace.fresh]) (by simp [Workspace.fresh])
  have hsame : ∀ name, Table.has w.tables.failed name = Table.has w'.tables.failed name := by
    intro name
    rw [Bool.eq_iff_iff, Table.has_iff, Table.has_iff]
    constructor
    · exact hleast _ (hsettled'.perm distinct' perm.symm) name
    · exact hleast' _ (hsettled.perm distinct perm) name
  refine ⟨hsame, ?_⟩
  rw [(buildTables_eq_ok hc).1, (buildTables_eq_ok hd).1, failureDiagnostics_length,
    failureDiagnostics_length, perm.countP_eq]
  exact List.countP_congr fun e _ => by rw [hsame e.1]

/-- A list of items, its items, which have a property of a form that is not supported, and
an enumeration. -/
def basketSchemas : Table String Schema := [
  ("Basket", .array { location := "#/components/schemas/Basket" }
    (.reference "#/components/schemas/Basket/items" "Item")),
  ("Item", .object { location := "#/components/schemas/Item" }
    [(.text "shape", .unsupported { location := "#/components/schemas/Item/shape" } "oneOf")]
    [] []),
  ("Size", .enumeration { location := "#/components/schemas/Size" } (.text "string")
    [.text "small"])]

def basketContract : Contract := { title := "Baskets", version := "1", schemas := basketSchemas }

def reversedContract : Contract := { basketContract with schemas := basketSchemas.reverse }

theorem buildTables_perm_reversed :
    ∃ ds ds' w w',
      buildTables basketContract (.fresh basketContract) = .ok ds w ∧
      buildTables reversedContract (.fresh reversedContract) = .ok ds' w' ∧
      (∀ name, Table.has w.tables.failed name = Table.has w'.tables.failed name) ∧
      ds.length = 2 ∧ ds'.length = 2 := by
  obtain ⟨ds, w, hc, hlen⟩ := Step.exists_of_outcome (f := List.length) (b := 2)
    (r := buildTables basketContract (.fresh basketContract)) (by decide +kernel)
  obtain ⟨ds', w', hd, -⟩ := Step.exists_of_outcome (f := List.length) (b := 2)
    (r := buildTables reversedContract (.fresh reversedContract)) (by decide +kernel)
  have distinct : (Table.keys basketContract.schemas).Nodup := by decide
  have perm : basketContract.schemas.Perm reversedContract.schemas :=
    basketSchemas.reverse_perm.symm
  obtain ⟨hsame, hlength⟩ := buildTables_perm distinct perm hc hd
  exact ⟨ds, ds', w, w', hc, hd, hsame, hlen, hlength.symm.trans hlen⟩

end Types

end ApiContract
