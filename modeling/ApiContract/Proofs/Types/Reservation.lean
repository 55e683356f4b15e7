import ApiContract.Proofs.Types.Addition
import ApiContract.Types.Components

/-! # The reserved names of the components

Before any schema is mapped, every component gets a type name of its own, so that no
derived name can be the name of a component and no two components share a name. A
pass over the components starts from tables that hold these names and nothing else.
-/
namespace ApiContract.TypeTables

/-- The type names of the components were given out, each to one component. -/
structure Named (t : TypeTables) : Prop where
  taken : ∀ c n, Table.get? t.typeNames c = some n → n ∈ t.taken
  distinct : ∀ c d n, Table.get? t.typeNames c = some n → Table.get? t.typeNames d = some n → c = d

def reserve (t : TypeTables) (component : String) : TypeTables :=
  let name := t.freshName (Naming.typeName component)
  { t.take name with typeNames := Table.put t.typeNames component name }

theorem reserveAll_eq_foldl (t : TypeTables) (components : List String) :
    t.reserveAll components = components.foldl reserve t := rfl

theorem get?_reserve {t : TypeTables} {component c n : String}
    (h : Table.get? (t.reserve component).typeNames c = some n) :
    (c = component ∧ n = t.freshName (Naming.typeName component)) ∨
      (c ≠ component ∧ Table.get? t.typeNames c = some n) := by
  by_cases hc : c = component
  · subst hc
    have hself := Table.get?_put_self t.typeNames c (t.freshName (Naming.typeName c))
    exact Or.inl ⟨rfl, Option.some.inj (h.symm.trans hself)⟩
  · exact Or.inr ⟨hc, (Table.get?_put_ne t.typeNames _ hc).symm.trans h⟩

theorem Named.reserve {t : TypeTables} (ht : t.Named) (component : String) :
    (t.reserve component).Named where
  taken := by
    intro c n h
    rcases get?_reserve h with ⟨-, rfl⟩ | ⟨-, h⟩
    · exact List.mem_cons_self
    · exact List.mem_cons_of_mem _ (ht.taken c n h)
  distinct := by
    intro c d n hc hd
    have hnew := freshName_notMem t (Naming.typeName component)
    rcases get?_reserve hc with ⟨rfl, rfl⟩ | ⟨-, hold⟩
    · rcases get?_reserve hd with ⟨rfl, -⟩ | ⟨-, hold⟩
      · rfl
      · exact absurd (ht.taken d _ hold) hnew
    · rcases get?_reserve hd with ⟨rfl, rfl⟩ | ⟨-, hold'⟩
      · exact absurd (ht.taken c _ hold) hnew
      · exact ht.distinct c d n hold hold'

theorem Named.reserveAll {t : TypeTables} (ht : t.Named) (components : List String) :
    (t.reserveAll components).Named := by
  rw [reserveAll_eq_foldl]
  induction components generalizing t with
  | nil => exact ht
  | cons c rest ih => exact ih (ht.reserve c)

theorem Named.of_typeNames {t t' : TypeTables} (ht : t.Named) (hn : t'.typeNames = t.typeNames)
    (htaken : ∀ n ∈ t.taken, n ∈ t'.taken) : t'.Named where
  taken := fun c n hc => htaken n (ht.taken c n (hn ▸ hc))
  distinct := fun c d n hc hd => ht.distinct c d n (hn ▸ hc) (hn ▸ hd)

/-- Reserving names touches nothing but the names. -/
theorem reserveAll_eq (t : TypeTables) (components : List String) :
    ∃ taken typeNames, t.reserveAll components = { t with taken, typeNames } := by
  rw [reserveAll_eq_foldl]
  induction components generalizing t with
  | nil => exact ⟨t.taken, t.typeNames, rfl⟩
  | cons c rest ih =>
    obtain ⟨taken, typeNames, h⟩ := ih (t.reserve c)
    exact ⟨taken, typeNames, h⟩

/-- Tables that hold no entry, and in which the components have names. -/
structure Blank (t : TypeTables) : Prop where
  beans : t.beans = []
  enums : t.enums = []
  aliases : t.aliases = []
  named : t.Named

theorem Blank.reserved {t : TypeTables} (ht : t.Blank) : t.Reserved := by
  simp [Reserved, entryNames, ht.beans, ht.enums]

theorem blank_reset (t : TypeTables) (contract : Contract) : (t.reset contract).Blank := by
  obtain ⟨taken, typeNames, h⟩ :=
    reserveAll_eq { failed := t.failed, resolving := t.resolving } (Table.keys contract.schemas)
  have hnone : Named { failed := t.failed, resolving := t.resolving } :=
    { taken := fun c n h => by simp [Table.get?] at h,
      distinct := fun c d n h => by simp [Table.get?] at h }
  exact
    { beans := congrArg TypeTables.beans h, enums := congrArg TypeTables.enums h,
      aliases := congrArg TypeTables.aliases h,
      named := hnone.reserveAll (Table.keys contract.schemas) }

@[simp] theorem failed_reset (t : TypeTables) (contract : Contract) :
    (t.reset contract).failed = t.failed := by
  obtain ⟨taken, typeNames, h⟩ :=
    reserveAll_eq { failed := t.failed, resolving := t.resolving } (Table.keys contract.schemas)
  rw [reset, h]

@[simp] theorem resolving_reset (t : TypeTables) (contract : Contract) :
    (t.reset contract).resolving = t.resolving := by
  obtain ⟨taken, typeNames, h⟩ :=
    reserveAll_eq { failed := t.failed, resolving := t.resolving } (Table.keys contract.schemas)
  rw [reset, h]

end ApiContract.TypeTables

namespace ApiContract.Types

open TypeTables

theorem blank_startPass (contract : Contract) (t : TypeTables) : (startPass contract t).Blank :=
  { blank_reset t contract with
    named := ⟨(blank_reset t contract).named.taken, (blank_reset t contract).named.distinct⟩ }

@[simp] theorem failed_startPass (contract : Contract) (t : TypeTables) :
    (startPass contract t).failed = findFailures contract t.failed := by
  simp [startPass]

@[simp] theorem resolving_startPass (contract : Contract) (t : TypeTables) :
    (startPass contract t).resolving = t.resolving := by
  simp [startPass]

end ApiContract.Types
