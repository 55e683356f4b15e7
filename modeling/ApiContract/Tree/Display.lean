import ApiContract.Decimal.Shortest
import ApiContract.Text.Digit
import ApiContract.Text.Quoted
import ApiContract.Tree.Basic

/-! # How values are shown

Every value has a shown form, in which texts are quoted, and a display form, in
which a text stands for itself. Messages and derived names use these forms. A list
or map that holds itself is shown inside itself by three dots. An integer of very
many digits has no form that is used.
-/
namespace ApiContract

/-- Shown numbers have an exponent below `1e-04` and from `1e+16` on. -/
def shownFloat : Decimal.Layout := ⟨-4, 15, 2, "inf", "nan"⟩

def padded (width n : Nat) : String := String.ofList (Decimal.padLeft width (Nat.toDigits 10 n))

namespace Instant

def offsetText (seconds : Int) : String :=
  let size := seconds.natAbs
  let sign := if seconds < 0 then "-" else "+"
  s!"{sign}{padded 2 (size / 3600)}:{padded 2 (size / 60 % 60)}"

def display (t : Instant) : String :=
  let day := s!"{padded 4 t.year}-{padded 2 t.month}-{padded 2 t.day}"
  let time := s!"{padded 2 t.hour}:{padded 2 t.minute}:{padded 2 t.second}"
  let micro := if t.micro = 0 then "" else s!".{padded 6 t.micro}"
  let zone := (t.offset.map offsetText).getD ""
  s!"{day} {time}{micro}{zone}"

def zoneShown (seconds : Int) : String :=
  if seconds = 0 then "datetime.timezone.utc"
  else if seconds < 0 then
    s!"datetime.timezone(datetime.timedelta(days=-1, seconds={seconds + 86400}))"
  else s!"datetime.timezone(datetime.timedelta(seconds={seconds}))"

def shown (t : Instant) : String :=
  let second := if t.second = 0 ∧ t.micro = 0 then "" else s!", {t.second}"
  let micro := if t.micro = 0 then "" else s!", {t.micro}"
  let zone := (t.offset.map fun o => s!", tzinfo={zoneShown o}").getD ""
  s!"datetime.datetime({t.year}, {t.month}, {t.day}, {t.hour}, {t.minute}{second}{micro}{zone})"

end Instant

def Scalar.shown : Scalar → String
  | .null => "None"
  | .bool b => if b then "True" else "False"
  | .int n => toString n
  | .float x => shownFloat.write x
  | .text s => Text.quoted s
  | .date y m d => s!"datetime.date({y}, {m}, {d})"
  | .instant t => t.shown

def Scalar.display : Scalar → String
  | .text s => s
  | .date y m d => s!"{padded 4 y}-{padded 2 m}-{padded 2 d}"
  | .instant t => t.display
  | s => s.shown

namespace Tree

def markShown : Tree → String
  | list _ => "[...]"
  | _ => "\x7b...\x7d"

mutual

/-- The shown form inside loops, given with how each is shown again. -/
def shownIn (around : Table Nat String) : Tree → String
  | scalar s => s.shown
  | list items => "[" ++ ", ".intercalate (shownItems around items) ++ "]"
  | map entries => "\x7b" ++ ", ".intercalate (shownEntries around entries) ++ "\x7d"
  | loop label body =>
    match Table.get? around label with
    | some text => text
    | none => body.shownIn ((label, body.markShown) :: around)
  | back label => (Table.get? around label).getD ""

def shownItems (around : Table Nat String) : List Tree → List String
  | [] => []
  | t :: rest => t.shownIn around :: shownItems around rest

def shownEntries (around : Table Nat String) : List (Scalar × Tree) → List String
  | [] => []
  | e :: rest => (e.1.shown ++ ": " ++ e.2.shownIn around) :: shownEntries around rest

end

def shown (t : Tree) : String := t.shownIn []

def display : Tree → String
  | scalar s => s.display
  | t => t.shown

end Tree

/-- Whether an integer has no more digits than are written out. -/
def hasNumeral (n : Int) : Bool := n.natAbs < Nat.pow 10 Text.numeralLimit

def Scalar.isWritable : Scalar → Bool
  | .int n => hasNumeral n
  | _ => true

namespace Tree

mutual

/-- Whether no integer in the tree is too long to be written. -/
def isWritable : Tree → Bool
  | scalar s => s.isWritable
  | list items => itemsWritable items
  | map entries => entriesWritable entries
  | loop _ body => body.isWritable
  | back _ => true

def itemsWritable : List Tree → Bool
  | [] => true
  | t :: rest => t.isWritable && itemsWritable rest

def entriesWritable : List (Scalar × Tree) → Bool
  | [] => true
  | e :: rest => e.1.isWritable && e.2.isWritable && entriesWritable rest

end

end Tree

end ApiContract
