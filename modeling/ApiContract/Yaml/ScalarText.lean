import ApiContract.Tree.JsonReader
import ApiContract.Yaml.Cursor

/-! # The text of scalars

A scalar is written plain, between quotes, or as a block. In a plain or quoted
scalar a single line break counts as a blank and further breaks are kept; a block
keeps its breaks or folds them.
-/
namespace ApiContract.Yaml

abbrev Scanned := List Char × Cursor

/-- What the breaks between two lines of a flow scalar count as. -/
def foldBreaks (first later : List Char) : List Char :=
  (if first != ['\n'] then first else if later.isEmpty then [' '] else []) ++ later

namespace Plain

def isFlowMark (c : Char) : Bool := [',', '[', ']', '\x7b', '\x7d'].contains c

/-- Whether a plain scalar ends before the next character. -/
def ends (flow : Bool) (rest : List Char) : Bool :=
  match rest with
  | [] => true
  | c :: more =>
    c == ' ' || c == '\t' || isBreak c ||
    (c == ':' && (match more with
      | [] => true
      | d :: _ => d == ' ' || d == '\t' || isBreak d || (flow && isFlowMark d))) ||
    (flow && (isFlowMark c || c == '?'))

def wordLength (flow : Bool) : List Char → Nat
  | [] => 0
  | c :: rest => if ends flow (c :: rest) then 0 else wordLength flow rest + 1

/-- The breaks behind the first; none when a mark between documents follows. The text
so far is kept in reverse. -/
def laterBreaks : Nat → List Char → Cursor → Option Scanned
  | 0, _, _ => none
  | fuel + 1, done, c =>
    match c.peek? with
    | some x =>
      if x == ' ' then laterBreaks fuel done c.next
      else if isBreak x then
        let (b, after) := c.takeBreak
        if after.separatesDocuments then none else laterBreaks fuel (b.reverse ++ done) after
      else some (done.reverse, c)
    | none => some (done.reverse, c)

structure Space where
  text : List Char
  cursor : Cursor
  hasBreak : Bool

def space (c : Cursor) : Space :=
  let (blanks, after) := c.takeRun (· == ' ')
  if after.peek?.any isBreak then
    let (first, behind) := after.takeBreak
    if behind.separatesDocuments then ⟨[], behind, true⟩
    else match laterBreaks (behind.left + 1) [] behind with
      | some (later, final) => ⟨foldBreaks first later, final, true⟩
      | none => ⟨[], behind, true⟩
  else ⟨blanks, after, false⟩

structure Taken where
  text : List Char
  cursor : Cursor
  hasBreak : Bool

/-- The words of a plain scalar behind those so far, whose text is kept in reverse. -/
def words (flow : Bool) (indent : Int) : Nat → List Char → Taken → Taken
  | 0, _, taken => taken
  | fuel + 1, gap, taken =>
    let c := taken.cursor
    let length := if c.at? '#' then 0 else wordLength flow c.rest
    if length = 0 then taken
    else
      let s := space (c.forward length)
      let text := (gap ++ c.rest.take length).reverse ++ taken.text
      let later : Taken := ⟨text, s.cursor, s.hasBreak⟩
      if s.text.isEmpty || s.cursor.at? '#' || (!flow && (s.cursor.column : Int) < indent) then
        later
      else words flow indent fuel s.text later

def scan (flow : Bool) (indent : Int) (c : Cursor) : Taken :=
  let taken := words flow indent (c.left + 1) [] ⟨[], c, false⟩
  { taken with text := taken.text.reverse }

end Plain

namespace Quoted

def escapes : List (Char × Char) := [
  ('0', '\x00'), ('a', '\x07'), ('b', '\x08'), ('t', '\t'), ('\t', '\t'), ('n', '\n'),
  ('v', '\x0b'), ('f', '\x0c'), ('r', '\r'), ('e', '\x1b'), (' ', ' '), ('\x22', '\x22'),
  ('\\', '\\'), ('/', '/'), ('N', '\u0085'), ('_', '\u00a0'), ('L', '\u2028'), ('P', '\u2029')]

def codeLength? (c : Char) : Option Nat :=
  if c = 'x' then some 2 else if c = 'u' then some 4 else if c = 'U' then some 8 else none

def code (length : Nat) (c : Cursor) : Result (Nat × Cursor) :=
  let digits := c.rest.take length
  match JsonReader.hexNumber? digits with
  | some n => if digits.length < length then .error .malformed else .ok (n, c.forward length)
  | none => .error .malformed

/-- The second half of a pair of codes that stand for one character. -/
def lowHalf? (c : Cursor) : Option (Nat × Cursor) :=
  match c.rest with
  | '\\' :: 'u' :: a :: b :: x :: d :: _ =>
    (JsonReader.hexNumber? [a, b, x, d]).bind fun n =>
      if 0xdc00 ≤ n ∧ n < 0xe000 then some (n, c.forward 6) else none
  | _ => none

/-- The character of an escape with a code; half of a pair alone stands for none. -/
def codeEscape (length : Nat) (c : Cursor) : Result Scanned := do
  let (n, after) ← code length c
  if n ≥ 0x80000000 then .error .tooLarge
  else if n > 0x10ffff then .error .notNumber
  else if 0xd800 ≤ n ∧ n < 0xe000 then
    match lowHalf? after with
    | some (low, behind) =>
      if n < 0xdc00 then
        pure ([Char.ofNat (0x10000 + (n - 0xd800) * 0x400 + (low - 0xdc00))], behind)
      else pure (['\ufffd'], after)
    | none => pure (['\ufffd'], after)
  else pure ([Char.ofNat n], after)

/-- The breaks and leading blanks of the following lines, behind those so far in
reverse. -/
def breaks : Nat → List Char → Cursor → Result Scanned
  | 0, done, c => .ok (done.reverse, c)
  | fuel + 1, done, c =>
    if c.separatesDocuments then .error .malformed
    else
      let start := c.skipRun fun x => x == ' ' || x == '\t'
      if start.peek?.any isBreak then
        let (b, after) := start.takeBreak
        breaks fuel (b.reverse ++ done) after
      else .ok (done.reverse, start)

def escape (c : Cursor) : Result Scanned :=
  match c.peek? with
  | none => .error .malformed
  | some x =>
    match escapes.find? fun e => e.1 == x with
    | some e => .ok ([e.2], c.next)
    | none =>
      match codeLength? x with
      | some length => codeEscape length c.next
      | none =>
        if isBreak x then
          let (_, after) := c.takeBreak
          breaks (after.left + 1) [] after
        else .error .malformed

def isPlainChar (x : Char) : Bool :=
  !(x == '\x27' || x == '\x22' || x == '\\' || x == ' ' || x == '\t' || isBreak x)

def space (c : Cursor) : Result Scanned := do
  let (blanks, after) := c.takeRun fun x => x == ' ' || x == '\t'
  match after.peek? with
  | none => .error .malformed
  | some x =>
    if isBreak x then
      let (first, behind) := after.takeBreak
      let (later, final) ← breaks (behind.left + 1) [] behind
      pure (foldBreaks first later, final)
    else pure (blanks, after)

/-- The text up to the closing quote, behind that so far in reverse. -/
def body (quote : Char) : Nat → List Char → Cursor → Result Scanned
  | 0, _, _ => .error .malformed
  | fuel + 1, done, c =>
    match c.rest with
    | [] => .error .malformed
    | x :: more =>
      if isPlainChar x then
        let (run, after) := c.takeRun isPlainChar
        body quote fuel (run.reverse ++ done) after
      else if quote == '\x27' && x == '\x27' && more.head? == some '\x27' then
        body quote fuel ('\x27' :: done) (c.forward 2)
      else if x == quote then .ok (done.reverse, c.next)
      else if quote == '\x22' && x == '\\' then do
        let (e, after) ← escape c.next
        body quote fuel (e.reverse ++ done) after
      else if x == '\x27' || x == '\x22' || x == '\\' then body quote fuel (x :: done) c.next
      else do
        let (s, after) ← space c
        body quote fuel (s.reverse ++ done) after

def scan (quote : Char) (c : Cursor) : Result Scanned :=
  body quote (c.left + 1) [] c.next

end Quoted

namespace BlockText

/-- What becomes of the line breaks at the end of a block. -/
inductive Chomping
  | clip
  | keep
  | cut
  deriving DecidableEq

structure Header where
  chomping : Chomping := .clip
  increment : Option Nat := none

def chomping? (c : Cursor) : Option Chomping :=
  if c.at? '+' then some .keep else if c.at? '-' then some .cut else none

def increment? (c : Cursor) : Option Nat :=
  c.peek?.bind fun x => if '0' ≤ x ∧ x ≤ '9' then some (x.toNat - 0x30) else none

def header (c : Cursor) : Result (Header × Cursor) := do
  let (h, after) : Header × Cursor := match chomping? c with
    | some ch =>
      match increment? c.next with
      | some n => (⟨ch, some n⟩, c.next.next)
      | none => (⟨ch, none⟩, c.next)
    | none =>
      match increment? c with
      | some n =>
        match chomping? c.next with
        | some ch => (⟨ch, some n⟩, c.next.next)
        | none => (⟨.clip, some n⟩, c.next)
      | none => ({}, c)
  if h.increment == some 0 || !after.blankAt 0 then .error .malformed else pure (h, after)

/-- The rest of the line of a header, which may hold a comment only. -/
def skipHeaderLine (c : Cursor) : Result Cursor :=
  let after := c.skipBlanks.skipComment
  if after.lineEnds then .ok after.takeBreak.2 else .error .malformed

/-- Empty lines at the start of a block, behind those so far in reverse, and the widest
indentation among them. -/
def leadingBreaks : Nat → List Char → Nat → Cursor → List Char × Nat × Cursor
  | 0, done, width, c => (done.reverse, width, c)
  | fuel + 1, done, width, c =>
    match c.peek? with
    | some x =>
      if x == ' ' then leadingBreaks fuel done (max width c.next.column) c.next
      else if isBreak x then
        let (b, after) := c.takeBreak
        leadingBreaks fuel (b.reverse ++ done) width after
      else (done.reverse, width, c)
    | none => (done.reverse, width, c)

def skipIndent (indent : Nat) : Nat → Cursor → Cursor
  | 0, c => c
  | fuel + 1, c =>
    if c.column < indent && c.at? ' ' then skipIndent indent fuel c.next else c

/-- Empty lines between two lines of a block, behind those so far in reverse. -/
def innerBreaks (indent : Nat) : Nat → List Char → Cursor → Scanned
  | 0, done, c => (done.reverse, c)
  | fuel + 1, done, c =>
    let start := skipIndent indent indent c
    if start.peek?.any isBreak then
      let (b, after) := start.takeBreak
      innerBreaks indent fuel (b.reverse ++ done) after
    else (done.reverse, start)

def startsWithBlank (c : Cursor) : Bool := c.at? ' ' || c.at? '\t'

/-- A block so far: its text in reverse, the last line break, the breaks behind it, the
cursor. -/
structure State where
  text : List Char := []
  lastBreak : List Char := []
  breaks : List Char
  cursor : Cursor

/-- What stands between two lines of a block. -/
def joint (folded firstBlank : Bool) (s : State) : List Char :=
  if folded && s.lastBreak == ['\n'] && !firstBlank && !startsWithBlank s.cursor then
    (if s.breaks.isEmpty then [' '] else [])
  else s.lastBreak

def lines (folded : Bool) (indent : Nat) : Nat → State → State
  | 0, s => s
  | fuel + 1, s =>
    if s.cursor.column == indent && s.cursor.peek?.isSome then
      let firstBlank := startsWithBlank s.cursor
      let (line, behind) := s.cursor.takeRun fun x => !isBreak x
      let (b, after) := behind.takeBreak
      let (later, start) := innerBreaks indent (after.left + 1) [] after
      let next : State :=
        { text := (s.breaks ++ line).reverse ++ s.text, lastBreak := b, breaks := later,
          cursor := start }
      if start.column == indent && start.peek?.isSome then
        let between := joint folded firstBlank next
        lines folded indent fuel { next with text := between.reverse ++ next.text }
      else next
    else s

def closing (chomping : Chomping) (s : State) : List Char :=
  match chomping with
  | .cut => s.text.reverse
  | .clip => s.text.reverse ++ s.lastBreak
  | .keep => s.text.reverse ++ s.lastBreak ++ s.breaks

def scan (folded : Bool) (outer : Int) (c : Cursor) : Result Scanned := do
  let (h, after) ← header c.next
  let start ← skipHeaderLine after
  let least := (max (outer + 1) 1).toNat
  let fuel := start.left + 1
  let (indent, breaks, first) := match h.increment with
    | some n =>
      let indent := least + n - 1
      let (breaks, first) := innerBreaks indent fuel [] start
      (indent, breaks, first)
    | none =>
      let (breaks, width, first) := leadingBreaks fuel [] 0 start
      (max least width, breaks, first)
  let final := lines folded indent fuel { breaks, cursor := first }
  pure (closing h.chomping final, final.cursor)

end BlockText

end ApiContract.Yaml
