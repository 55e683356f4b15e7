import ApiContract.Contract.Basic
import ApiContract.Run.Event
import ApiContract.Types.TypeRef

/-! # The workspace of a run

The state that the stages of a run share: the tables of generated types, the
signatures given to operations, and the events so far. A step keeps its changes
also when it fails; only a schema fault can be caught.
-/
namespace ApiContract

structure Fault where
  fault : SchemaFault
  location : String

def Fault.diagnostic (f : Fault) : Diagnostic := f.fault.diagnostic f.location

/-- The generated types, the names given out, and what is known of the components. -/
structure TypeTables where
  beans : Table String Bean := []
  enums : Table String EnumType := []
  taken : List String := []
  aliases : Table String TypeRef := []
  typeNames : Table String String := []
  failed : Table String Fault := []
  resolving : List String := []

structure Binding where
  name : Scalar
  identifier : String
  place : Scalar
  type : TypeRef
  required : Bool := false
  description : Tree := .text ""

structure Signature where
  methodName : String
  parameters : List Binding := []
  returnType : TypeRef := .void
  isAsync : Bool := false
  produces : List Scalar := []
  consumes : List Scalar := []

structure Workspace where
  tables : TypeTables := {}
  /-- The signature of each operation that has one, by its label. -/
  signatures : Table String Signature := []
  log : Array Event := #[]

abbrev Step := EStateM Failure Workspace

namespace Step

def tables : Step TypeTables := fun w => .ok w.tables w

def modifyTables (f : TypeTables → TypeTables) : Step Unit := fun w =>
  .ok () { w with tables := f w.tables }

def record (event : Event) : Step Unit := fun w => .ok () { w with log := w.log.push event }

def fail {α : Type} (failure : Failure) : Step α := fun w => .error failure w

/-- A computation without state as a step. -/
def lift {α : Type} (outcome : Outcome α) : Step α := fun w =>
  match outcome with
  | .ok a => .ok a w
  | .error e => .error e w

/-- Turns a schema fault into a value; any other failure stays one. -/
def attempt {α : Type} (step : Step α) : Step (Except Fault α) := fun w =>
  match step w with
  | .ok a w' => .ok (.ok a) w'
  | .error (.schema fault location) w' => .ok (.error ⟨fault, location⟩) w'
  | .error e w' => .error e w'

/-- Runs a step and then changes the tables, whatever the outcome. -/
def afterwards {α : Type} (step : Step α) (f : TypeTables → TypeTables) : Step α := fun w =>
  match step w with
  | .ok a w' => .ok a { w' with tables := f w'.tables }
  | .error e w' => .error e { w' with tables := f w'.tables }

end Step

end ApiContract
