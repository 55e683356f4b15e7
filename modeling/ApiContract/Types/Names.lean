import ApiContract.Naming.Identifier
import ApiContract.Run.Workspace

/-! # Names of generated types

Every type name comes from one reservoir: a name that was given out is never
given out again, except after a rollback. A mark remembers the tables, and rolling
back drops what came after it.
-/
namespace ApiContract

namespace TypeTables

def freshName (t : TypeTables) (base : String) : String := Naming.fresh t.taken base ""

def take (t : TypeTables) (name : String) : TypeTables := { t with taken := name :: t.taken }

/-- What a rollback needs to know of the tables. -/
structure Mark where
  beans : Nat
  enums : Nat
  taken : List String
  aliases : List String

def mark (t : TypeTables) : Mark :=
  { beans := t.beans.length, enums := t.enums.length, taken := t.taken,
    aliases := Table.keys t.aliases }

def rollback (t : TypeTables) (m : Mark) : TypeTables :=
  { t with
    beans := t.beans.take m.beans, enums := t.enums.take m.enums, taken := m.taken,
    aliases := t.aliases.filter fun a => a.1 ∈ m.aliases }

def reserveAll (t : TypeTables) (components : List String) : TypeTables :=
  components.foldl
    (fun t c =>
      let name := t.freshName (Naming.typeName c)
      { t.take name with typeNames := Table.put t.typeNames c name })
    t

/-- Tables that know the names of the components and which of them failed, no more. -/
def reset (t : TypeTables) (contract : Contract) : TypeTables :=
  ({ failed := t.failed, resolving := t.resolving } : TypeTables).reserveAll
    (Table.keys contract.schemas)

end TypeTables

/-- A workspace in which only the names of the components are reserved. -/
def Workspace.fresh (contract : Contract) : Workspace :=
  { tables := ({} : TypeTables).reset contract }

namespace Types

def giveName (base : String) : Step String := do
  let t ← Step.tables
  let name := t.freshName base
  Step.modifyTables (·.take name)
  pure name

/-- The second half of a derived name; a role that is no text has none. -/
def roleName (role : Scalar) : Outcome String :=
  if role.isTruthy then (need .illTyped role.text?).map Naming.typeName else .ok ""

/-- The name of a type that has none: its owner and its role there. -/
def synthesizeName (owner : String) (role : Scalar) : Step String := do
  let half ← Step.lift (roleName role)
  giveName (Naming.typeName owner ++ half)

end Types

end ApiContract
