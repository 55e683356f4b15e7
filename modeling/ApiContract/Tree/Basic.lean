import ApiContract.Decimal.Binary64
import ApiContract.Table

/-! # Document trees

A document is a tree of scalars, lists and ordered maps whose keys are scalars.
Two keys are the same when they are equal as values: a truth value counts as the
number zero or one, an integral floating number as that integer, and a point in time
with an offset as that point in universal time.

A list or map may hold itself. It is a loop then, which carries a label of its own,
and a mark with the label stands for the whole loop inside it. Opening a loop puts
the loop in the places of its marks, so that a tree without free marks has parts
without free marks.
-/
namespace ApiContract

/-- A point in time, with its offset from universal time in seconds when given. -/
structure Instant where
  year : Nat
  month : Nat
  day : Nat
  hour : Nat
  minute : Nat
  second : Nat
  micro : Nat
  offset : Option Int
  deriving DecidableEq, Repr

namespace Instant

/-- The days from the first of March of the year zero to a date. -/
def days (year month day : Nat) : Nat :=
  let years := if month ≤ 2 then year - 1 else year
  365 * years + years / 4 - years / 100 + years / 400 + (153 * ((month + 9) % 12) + 2) / 5 +
    (day - 1)

/-- The microseconds to the instant in universal time; without an offset, as if it had none. -/
def micros (t : Instant) : Int :=
  let seconds := days t.year t.month t.day * 86400 + t.hour * 3600 + t.minute * 60 + t.second
  (seconds - t.offset.getD 0) * 1000000 + t.micro

end Instant

inductive Scalar
  | null
  | bool (b : Bool)
  | int (n : Int)
  | float (x : Binary64)
  | text (s : String)
  | date (year month day : Nat)
  | instant (time : Instant)
  deriving Repr, Inhabited

inductive Tree
  | scalar (s : Scalar)
  | list (items : List Tree)
  | map (entries : List (Scalar × Tree))
  /-- A list or map that holds itself, at once or further down. -/
  | loop (label : Nat) (body : Tree)
  | back (label : Nat)
  deriving Inhabited

/-- What scalars that may be written in several ways are compared by. -/
inductive Measure
  | number (n : Int ⊕ UInt64)
  | moment (isUniversal : Bool) (micros : Int)
  deriving DecidableEq

namespace Scalar

/-- The integer a number stands for, or the bits of a number that is none. What is
no number at all has the same bits however it came about. -/
def number? : Scalar → Option (Int ⊕ UInt64)
  | bool b => some (.inl (if b then 1 else 0))
  | int n => some (.inl n)
  | float x =>
    if x.isNaN then some (.inr Binary64.nan.bits)
    else match x.toInt? with
      | some n => some (.inl n)
      | none => some (.inr x.bits)
  | _ => none

/-- Instants with an offset and instants without one are never the same. -/
def measure? : Scalar → Option Measure
  | instant t => some (.moment t.offset.isSome t.micros)
  | x => x.number?.map .number

def same : Scalar → Scalar → Bool
  | text a, text b => a == b
  | null, null => true
  | date y m d, date y' m' d' => y == y' && m == m' && d == d'
  | a, b => match a.measure?, b.measure? with
    | some x, some y => x == y
    | _, _ => false

instance : BEq Scalar := ⟨same⟩

@[simp] theorem text_beq_text (a b : String) : (text a == text b) = (a == b) := rfl

/-- Null, false, zero and the empty text are not truthy. -/
def isTruthy : Scalar → Bool
  | null => false
  | bool b => b
  | int n => n != 0
  | float x => !x.isZero
  | text s => !s.isEmpty
  | date .. => true
  | instant _ => true

def text? : Scalar → Option String
  | text s => some s
  | _ => none

end Scalar

abbrev Fields := Table Scalar Tree

def Fields.field? (fields : Fields) (name : String) : Option Tree :=
  Table.get? fields (.text name)

def Fields.hasField (fields : Fields) (name : String) : Bool := Table.has fields (.text name)

namespace Tree

abbrev null : Tree := .scalar .null

abbrev text (s : String) : Tree := .scalar (.text s)

abbrev int (n : Int) : Tree := .scalar (.int n)

abbrev bool (b : Bool) : Tree := .scalar (.bool b)

mutual

/-- Puts a tree in the places of the marks with a label. -/
def fill (label : Nat) (whole : Tree) : Tree → Tree
  | scalar s => scalar s
  | list items => list (fillItems label whole items)
  | map entries => map (fillEntries label whole entries)
  | loop l body => if l = label then loop l body else loop l (fill label whole body)
  | back l => if l = label then whole else back l

def fillItems (label : Nat) (whole : Tree) : List Tree → List Tree
  | [] => []
  | t :: rest => fill label whole t :: fillItems label whole rest

def fillEntries (label : Nat) (whole : Tree) : List (Scalar × Tree) → List (Scalar × Tree)
  | [] => []
  | e :: rest => (e.1, fill label whole e.2) :: fillEntries label whole rest

end

/-- The tree as a scalar, a list or a map: a loop is opened. -/
def opened : Tree → Tree
  | loop label body => fill label (loop label body) body
  | t => t

@[simp] theorem opened_scalar (s : Scalar) : (scalar s).opened = scalar s := rfl

@[simp] theorem opened_list (items : List Tree) : (list items).opened = list items := rfl

@[simp] theorem opened_map (entries : List (Scalar × Tree)) :
    (map entries).opened = map entries := rfl

def isTruthy : Tree → Bool
  | scalar s => s.isTruthy
  | list items => !items.isEmpty
  | map entries => !entries.isEmpty
  | loop .. => true
  | back _ => true

def isNull : Tree → Bool
  | scalar .null => true
  | _ => false

def orElse (value other : Tree) : Tree := if value.isTruthy then value else other

def fields? (t : Tree) : Option Fields :=
  match t.opened with
  | map entries => some entries
  | _ => none

def items? (t : Tree) : Option (List Tree) :=
  match t.opened with
  | list items => some items
  | _ => none

def scalar? : Tree → Option Scalar
  | scalar s => some s
  | _ => none

def text? : Tree → Option String
  | scalar (.text s) => some s
  | _ => none

/-- The members of a list, the keys of a map or the characters of a text. -/
def members? (t : Tree) : Option (List Tree) :=
  match t.opened with
  | list items => some items
  | map entries => some (entries.map fun e => scalar e.1)
  | scalar (.text s) => some (s.toList.map fun c => text (String.singleton c))
  | _ => none

mutual

def size : Tree → Nat
  | scalar _ => 1
  | list items => listSize items + 1
  | map entries => entriesSize entries + 1
  | loop _ body => body.size
  | back _ => 1

def listSize : List Tree → Nat
  | [] => 0
  | t :: rest => t.size + listSize rest

def entriesSize : List (Scalar × Tree) → Nat
  | [] => 0
  | e :: rest => e.2.size + entriesSize rest

end

theorem size_le_listSize {t : Tree} {items : List Tree} (h : t ∈ items) :
    t.size ≤ listSize items := by
  induction items with
  | nil => simp at h
  | cons s rest ih =>
    rcases List.mem_cons.mp h with rfl | h
    · simp only [listSize]; omega
    · have := ih h; simp only [listSize]; omega

theorem size_le_entriesSize {e : Scalar × Tree} {entries : List (Scalar × Tree)}
    (h : e ∈ entries) : e.2.size ≤ entriesSize entries := by
  induction entries with
  | nil => simp at h
  | cons s rest ih =>
    rcases List.mem_cons.mp h with rfl | h
    · simp only [entriesSize]; omega
    · have := ih h; simp only [entriesSize]; omega

end Tree

end ApiContract
