import ApiContract.Table
import ApiContract.Yaml.Property
import ApiContract.Yaml.ScalarText

/-! # Tokens

A text is cut into marks, properties and scalars. Blocks have no marks of their
own: a block starts where a deeper column holds an entry or a key, and ends where
a line starts at a lesser column. A key without a mark is known only by the colon
behind it, so its mark is put in front of it then. A text that cannot be cut to its
end has the tokens before the fault, up to the first that may be a key still.
-/
namespace ApiContract.Yaml

inductive Token
  | directive (d : Directive)
  | documentStart
  | documentEnd
  | blockListStart
  | blockMapStart
  | blockEnd
  | flowListStart
  | flowListEnd
  | flowMapStart
  | flowMapEnd
  | entry
  | comma
  | key
  | value
  | anchor (name : String)
  | reference (name : String)
  | tag (t : WrittenTag)
  | scalar (text : String) (plain : Bool)
  deriving DecidableEq, Repr

namespace Token

/-- A place where a key may have started. -/
structure KeyPlace where
  position : Nat
  required : Bool
  index : Nat
  line : Nat
  column : Nat

/-- A text that is cut in part; the tokens so far are the last one first. -/
structure Lexer where
  cursor : Cursor
  tokens : List Token := []
  count : Nat := 0
  flowLevel : Nat := 0
  indent : Int := -1
  outer : List Int := []
  allowsKey : Bool := true
  places : Table Nat KeyPlace := []

namespace Lexer

abbrev Step := Lexer → Result Lexer

def isFlow (s : Lexer) : Bool := s.flowLevel != 0

def push (s : Lexer) (t : Token) : Lexer :=
  { s with tokens := t :: s.tokens, count := s.count + 1 }

/-- Puts tokens, the last one first, in front of those from a position on. -/
def insertAt (s : Lexer) (position : Nat) (new : List Token) : Lexer :=
  let (after, before) := s.tokens.splitAt (s.count - position)
  { s with tokens := after ++ new ++ before, count := s.count + new.length }

def mark (s : Lexer) (t : Token) (width : Nat) : Lexer :=
  { s.push t with cursor := s.cursor.forward width }

/-- The widest key without a mark. -/
def keyWidth : Nat := 1024

def isStale (c : Cursor) (k : KeyPlace) : Bool :=
  k.line != c.line || c.index - k.index > keyWidth

/-- Forgets the places that are too far back for a key. -/
def dropStale (s : Lexer) : Result Lexer :=
  let (stale, live) := s.places.partition fun e => isStale s.cursor e.2
  if stale.any fun e => e.2.required then .error .malformed else .ok { s with places := live }

def dropPlace (s : Lexer) : Result Lexer :=
  match Table.get? s.places s.flowLevel with
  | some k =>
    if k.required then .error .malformed
    else .ok { s with places := s.places.filter fun e => e.1 != s.flowLevel }
  | none => .ok s

def savePlace (s : Lexer) : Result Lexer := do
  if !s.allowsKey then pure s
  else
    let cleared ← dropPlace s
    let c := s.cursor
    let required := !s.isFlow && s.indent == (c.column : Int)
    let place : KeyPlace := ⟨s.count, required, c.index, c.line, c.column⟩
    pure { cleared with places := (s.flowLevel, place) :: cleared.places }

def unwindThrough (column : Int) : List Int → Lexer → Lexer
  | [], s => s
  | next :: rest, s =>
    if s.indent > column then
      unwindThrough column rest { s.push .blockEnd with indent := next, outer := rest }
    else s

/-- Ends the blocks that are deeper than a column. -/
def unwind (s : Lexer) (column : Int) : Lexer :=
  if s.isFlow then s else unwindThrough column s.outer s

def deepen (s : Lexer) (column : Nat) : Lexer :=
  { s with indent := column, outer := s.indent :: s.outer }

/-- Starts a block at the present column when that is deeper. -/
def startBlock (s : Lexer) (start : Token) : Lexer :=
  if s.indent < (s.cursor.column : Int) then (s.deepen s.cursor.column).push start else s

/-- Skips blanks, comments and line breaks; a key may start on a new line. -/
def skipGap : Nat → Lexer → Lexer
  | 0, s => s
  | fuel + 1, s =>
    let c := s.cursor.skipBlanks.skipComment
    if c.peek?.any isBreak then
      skipGap fuel { s with cursor := c.takeBreak.2, allowsKey := s.allowsKey || !s.isFlow }
    else { s with cursor := c }

def finish (s : Lexer) : Result Lexer := dropPlace (s.unwind (-1))

def directive (s : Lexer) : Result Lexer := do
  let t ← finish s
  let (d, after) ← Property.directive s.cursor
  pure { t.push (.directive d) with cursor := after, allowsKey := false }

def documentMark (t : Token) (s : Lexer) : Result Lexer := do
  let closed ← finish s
  pure { closed.mark t 3 with allowsKey := false }

def openBracket (t : Token) (s : Lexer) : Result Lexer := do
  let saved ← savePlace s
  pure { saved.mark t 1 with flowLevel := s.flowLevel + 1, allowsKey := true }

def closeBracket (t : Token) (s : Lexer) : Result Lexer := do
  let cleared ← dropPlace s
  if s.isFlow then
    pure { cleared.mark t 1 with flowLevel := s.flowLevel - 1, allowsKey := false }
  else .error .malformed

def comma (s : Lexer) : Result Lexer := do
  let cleared ← dropPlace s
  pure { cleared.mark .comma 1 with allowsKey := true }

def entry (s : Lexer) : Result Lexer := do
  if !s.isFlow && !s.allowsKey then .error .malformed
  let started := if s.isFlow then s else s.startBlock .blockListStart
  let cleared ← dropPlace started
  pure { cleared.mark .entry 1 with allowsKey := true }

/-- A key or a value with its mark, where no key came before it on the line. -/
def markedPart (t : Token) (s : Lexer) : Result Lexer := do
  if !s.isFlow && !s.allowsKey then .error .malformed
  let started := if s.isFlow then s else s.startBlock .blockMapStart
  let cleared ← dropPlace started
  pure { cleared.mark t 1 with allowsKey := !s.isFlow }

/-- Puts the mark of a key where it started, and that of its block. -/
def insertKey (s : Lexer) (place : KeyPlace) : Lexer :=
  let cleared := { s with places := s.places.filter fun e => e.1 != s.flowLevel }
  if !s.isFlow && s.indent < (place.column : Int) then
    (cleared.deepen place.column).insertAt place.position [.key, .blockMapStart]
  else cleared.insertAt place.position [.key]

def value (s : Lexer) : Result Lexer :=
  match Table.get? s.places s.flowLevel with
  | some place => .ok { (insertKey s place).mark .value 1 with allowsKey := false }
  | none => markedPart .value s

def anchor (t : String → Token) (s : Lexer) : Result Lexer := do
  let saved ← savePlace s
  let (name, after) ← Property.anchor s.cursor
  pure { saved.push (t name) with cursor := after, allowsKey := false }

def tag (s : Lexer) : Result Lexer := do
  let saved ← savePlace s
  let (found, after) ← Property.tag s.cursor
  pure { saved.push (.tag found) with cursor := after, allowsKey := false }

def block (folded : Bool) (s : Lexer) : Result Lexer := do
  let cleared ← dropPlace s
  let (text, after) ← BlockText.scan folded s.indent s.cursor
  pure { cleared.push (.scalar (String.ofList text) false) with cursor := after, allowsKey := true }

def quoted (quote : Char) (s : Lexer) : Result Lexer := do
  let saved ← savePlace s
  let (text, after) ← Quoted.scan quote s.cursor
  pure { saved.push (.scalar (String.ofList text) false) with cursor := after, allowsKey := false }

def plain (s : Lexer) : Result Lexer := do
  let saved ← savePlace s
  let taken := Plain.scan s.isFlow (s.indent + 1) s.cursor
  pure { saved.push (.scalar (String.ofList taken.text) true) with
    cursor := taken.cursor, allowsKey := taken.hasBreak }

def reserved : List Char :=
  ['-', '?', ':', ',', '[', ']', '\x7b', '\x7d', '#', '&', '*', '!', '|', '>', '\x27', '\x22',
   '%', '@', '\x60', ' ', '\t']

def startsPlain (s : Lexer) (x : Char) : Bool :=
  !(reserved.contains x || isBreak x) ||
    (!s.cursor.gapAt 1 && (x == '-' || (!s.isFlow && (x == '?' || x == ':'))))

/-- Cuts the token that starts with a character at the start of a line. -/
def lineStart? (s : Lexer) (x : Char) : Option Step :=
  if s.cursor.column != 0 then none
  else if x == '%' then some directive
  else if s.cursor.marksAt '-' then some (documentMark .documentStart)
  else if s.cursor.marksAt '.' then some (documentMark .documentEnd)
  else none

def bracket? : Char → Option Step
  | '[' => some (openBracket .flowListStart)
  | '\x7b' => some (openBracket .flowMapStart)
  | ']' => some (closeBracket .flowListEnd)
  | '\x7d' => some (closeBracket .flowMapEnd)
  | ',' => some comma
  | _ => none

def indicator? (s : Lexer) (x : Char) : Option Step :=
  if x == '-' && s.cursor.gapAt 1 then some entry
  else if x == '?' && (s.isFlow || s.cursor.gapAt 1) then some (markedPart .key)
  else if x == ':' && (s.isFlow || s.cursor.gapAt 1) then some value
  else none

def property? : Char → Option Step
  | '*' => some (anchor .reference)
  | '&' => some (anchor .anchor)
  | '!' => some tag
  | _ => none

def scalar? (s : Lexer) (x : Char) : Option Step :=
  if x == '|' && !s.isFlow then some (block false)
  else if x == '>' && !s.isFlow then some (block true)
  else if x == '\x27' || x == '\x22' then some (quoted x)
  else if s.startsPlain x then some plain
  else none

def token (s : Lexer) (x : Char) : Result Lexer :=
  match lineStart? s x <|> bracket? x <|> indicator? s x <|> property? x <|> scalar? s x with
  | some step => step s
  | none => .error .malformed

def approach (s : Lexer) : Result Lexer := do
  let t ← dropStale (skipGap (s.cursor.left + 1) s)
  pure (t.unwind t.cursor.column)

def cut (s : Lexer) : Result (Option Lexer) := do
  let t ← approach s
  match t.cursor.peek? with
  | some x => do
    let pushed ← token t x
    let next ← dropStale pushed
    pure (some next)
  | none => pure none

/-- The tokens in front of every place where a key may have started. -/
def settled (s : Lexer) : List Token :=
  let count := s.places.foldl (fun n e => min n e.2.position) s.count
  s.tokens.reverse.take count

end Lexer

/-- The tokens of a text, and why there are no more when that is not its end. -/
structure Stream where
  tokens : List Token
  problem : Option Problem := none

namespace Lexer

def closing (s : Lexer) : Stream :=
  match approach s >>= finish with
  | .ok final => { tokens := final.tokens.reverse }
  | .error problem => { tokens := s.settled, problem }

def run : Nat → Lexer → Stream
  | 0, s => { tokens := s.settled, problem := some .malformed }
  | fuel + 1, s =>
    match cut s with
    | .ok (some next) => run fuel next
    | .ok none => s.closing
    | .error problem => { tokens := s.settled, problem }

end Lexer

def isAllowed (c : Char) : Bool :=
  let n := c.toNat
  n == 0x9 || n == 0xa || n == 0xd || (0x20 ≤ n && n ≤ 0x7e) || n == 0x85 ||
    (0xa0 ≤ n && n ≤ 0xd7ff) || (0xe000 ≤ n && n ≤ 0xfffd) || 0x10000 ≤ n

def ofText (text : String) : Stream :=
  let chars := text.toList
  if !chars.all isAllowed then { tokens := [], problem := some .malformed }
  else
    let start : Cursor := { rest := chars, total := chars.length }
    let first := if start.at? '\ufeff' then start.next else start
    Lexer.run (chars.length + 2) { cursor := first }

end Token

end ApiContract.Yaml
