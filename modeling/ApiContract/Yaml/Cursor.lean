/-! # Places in a text

A cursor is what is left of a text together with the number of characters, lines
and columns before it. Line breaks are the four of the format, and a carriage
return with its line feed counts as one. A loop over a text ends at the latest when
nothing of it is left.
-/
namespace ApiContract.Yaml

inductive Problem
  | malformed
  | notNumber
  | missing
  | illTyped
  | outOfRange
  | tooLarge
  | endless
  deriving DecidableEq, Repr

abbrev Result (α : Type) := Except Problem α

def isBreak (c : Char) : Bool :=
  c == '\n' || c == '\r' || c == '\u0085' || c == '\u2028' || c == '\u2029'

structure Cursor where
  rest : List Char
  total : Nat
  index : Nat := 0
  line : Nat := 0
  column : Nat := 0

namespace Cursor

def left (c : Cursor) : Nat := c.total - c.index

def peek? (c : Cursor) : Option Char := c.rest.head?

def peekAt? (c : Cursor) (n : Nat) : Option Char := c.rest[n]?

def at? (c : Cursor) (x : Char) : Bool := c.peek? == some x

def next (c : Cursor) : Cursor :=
  match c.rest with
  | [] => c
  | x :: rest =>
    if isBreak x && !(x == '\r' && rest.head? == some '\n') then
      { c with rest, index := c.index + 1, line := c.line + 1, column := 0 }
    else if x == '\ufeff' then { c with rest, index := c.index + 1 }
    else { c with rest, index := c.index + 1, column := c.column + 1 }

def forward : Nat → Cursor → Cursor
  | 0, c => c
  | n + 1, c => forward n c.next

/-- The longest run of characters of a class, and the cursor behind it. -/
def takeRun (c : Cursor) (p : Char → Bool) : List Char × Cursor :=
  let run := c.rest.takeWhile p
  (run, c.forward run.length)

def skipRun (c : Cursor) (p : Char → Bool) : Cursor := (c.takeRun p).2

def skipBlanks (c : Cursor) : Cursor := c.skipRun (· == ' ')

/-- A line break as it counts in a scalar, nothing when there is none. -/
def takeBreak (c : Cursor) : List Char × Cursor :=
  match c.rest with
  | '\r' :: '\n' :: _ => (['\n'], c.forward 2)
  | x :: _ =>
    if x == '\u2028' || x == '\u2029' then ([x], c.next)
    else if isBreak x then (['\n'], c.next)
    else ([], c)
  | [] => ([], c)

/-- The end of the text, a line break, or one of the given characters. -/
def isGapAt (c : Cursor) (n : Nat) (more : List Char) : Bool :=
  match c.peekAt? n with
  | none => true
  | some x => isBreak x || more.contains x

def gapAt (c : Cursor) (n : Nat) : Bool := c.isGapAt n [' ', '\t']

/-- A blank, a line break or the end. -/
def blankAt (c : Cursor) (n : Nat) : Bool := c.isGapAt n [' ']

def lineEnds (c : Cursor) : Bool := c.isGapAt 0 []

/-- Three equal marks with a gap behind them. -/
def marksAt (c : Cursor) (x : Char) : Bool :=
  c.rest.take 3 == [x, x, x] && c.gapAt 3

def separatesDocuments (c : Cursor) : Bool := c.marksAt '-' || c.marksAt '.'

def skipComment (c : Cursor) : Cursor := if c.at? '#' then c.skipRun (fun x => !isBreak x) else c

end Cursor

end ApiContract.Yaml
