import ApiContract.Tree.JsonReader
import ApiContract.Yaml.Cursor

/-! # Anchors, tags and directives

An anchor is a word behind its mark. A tag is written as an address between angle
brackets, or as a handle with the rest of an address behind it. A directive stands
alone on a line before a document.
-/
namespace ApiContract.Yaml

/-- A tag as it is written; a tag without a handle is a whole address. -/
structure WrittenTag where
  handle : Option String
  rest : String
  deriving DecidableEq, Repr

inductive Directive
  | version (major minor : Nat)
  | handle (name address : String)
  | other
  deriving DecidableEq, Repr

namespace Property

def isWordChar (c : Char) : Bool :=
  ('0' ≤ c && c ≤ '9') || ('A' ≤ c && c ≤ 'Z') || ('a' ≤ c && c ≤ 'z') || c == '-' || c == '_'

def addressMarks : List Char :=
  [';', '/', '?', ':', '@', '&', '=', '+', '$', ',', '.', '!', '~', '*', '\x27', '(', ')', '[', ']']

def isAddressChar (c : Char) : Bool := isWordChar c || addressMarks.contains c

def word (c : Cursor) : Result (String × Cursor) :=
  match c.takeRun isWordChar with
  | ([], _) => .error .malformed
  | (run, after) => .ok (String.ofList run, after)

def anchorEnds : List Char := [' ', '\t', '?', ':', ',', ']', '\x7d', '%', '@', '\x60']

def anchor (c : Cursor) : Result (String × Cursor) := do
  let (name, after) ← word c.next
  if after.isGapAt 0 anchorEnds then pure (name, after) else .error .malformed

/-- The bytes written as percent signs with two digits each. -/
def percentBytes : Nat → ByteArray → Cursor → Result (ByteArray × Cursor)
  | 0, bytes, c => .ok (bytes, c)
  | fuel + 1, bytes, c =>
    if c.at? '%' then
      let digits := c.next.rest.take 2
      match JsonReader.hexNumber? digits with
      | some n =>
        if digits.length = 2 then percentBytes fuel (bytes.push (UInt8.ofNat n)) (c.forward 3)
        else .error .malformed
      | none => .error .malformed
    else .ok (bytes, c)

def percentText (c : Cursor) : Result (List Char × Cursor) := do
  let (bytes, after) ← percentBytes c.left .empty c
  match String.fromUTF8? bytes with
  | some text => pure (text.toList, after)
  | none => .error .malformed

def addressFrom : Nat → List Char → Cursor → Result (List Char × Cursor)
  | 0, done, c => .ok (done, c)
  | fuel + 1, done, c =>
    let (run, after) := c.takeRun isAddressChar
    if after.at? '%' then do
      let (text, behind) ← percentText after
      addressFrom fuel (done ++ run ++ text) behind
    else .ok (done ++ run, after)

/-- An address, or the part of one behind a handle; it is not empty. -/
def address (c : Cursor) : Result (String × Cursor) := do
  let (text, after) ← addressFrom (c.left + 1) [] c
  if text.isEmpty then .error .malformed else pure (String.ofList text, after)

/-- A handle: one mark, or a word between two marks. -/
def handle (c : Cursor) : Result (String × Cursor) :=
  if !c.at? '!' then .error .malformed
  else if c.next.at? ' ' then .ok ("!", c.next)
  else
    let (run, after) := c.next.takeRun isWordChar
    if after.at? '!' then .ok (String.ofList ('!' :: run ++ ['!']), after.next)
    else .error .malformed

/-- Whether a second mark comes before the next blank. -/
def hasLongHandle (c : Cursor) : Bool :=
  (c.rest.takeWhile fun x => !(x == ' ' || isBreak x)).contains '!'

def taggedAddress (c : Cursor) : Result (WrittenTag × Cursor) :=
  if c.next.at? '<' then do
    let (text, after) ← address (c.forward 2)
    if after.at? '>' then pure (⟨none, text⟩, after.next) else .error .malformed
  else if c.gapAt 1 then .ok (⟨none, "!"⟩, c.next)
  else do
    let (name, after) ← if hasLongHandle c.next then handle c else .ok ("!", c.next)
    let (text, behind) ← address after
    pure (⟨some name, text⟩, behind)

def tag (c : Cursor) : Result (WrittenTag × Cursor) := do
  let (found, after) ← taggedAddress c
  if after.blankAt 0 then pure (found, after) else .error .malformed

def number (c : Cursor) : Result (Nat × Cursor) :=
  match c.takeRun JsonReader.isAsciiDigit with
  | ([], _) => .error .malformed
  | (digits, after) =>
    if Text.numeralLimit < digits.length then .error .notNumber
    else .ok (JsonReader.digitsValue digits, after)

def version (c : Cursor) : Result (Directive × Cursor) := do
  let (major, point) ← number c.skipBlanks
  if !point.at? '.' then .error .malformed
  let (minor, after) ← number point.next
  if after.blankAt 0 then pure (.version major minor, after) else .error .malformed

def handleAddress (c : Cursor) : Result (Directive × Cursor) := do
  let (name, gap) ← handle c.skipBlanks
  if !gap.at? ' ' then .error .malformed
  let (text, after) ← address gap.skipBlanks
  if after.blankAt 0 then pure (.handle name text, after) else .error .malformed

def directive (c : Cursor) : Result (Directive × Cursor) := do
  let (name, after) ← word c.next
  if !after.blankAt 0 then .error .malformed
  let (found, behind) ←
    if name = "YAML" then version after
    else if name = "TAG" then handleAddress after
    else .ok (.other, after.skipRun fun x => !isBreak x)
  let final := behind.skipBlanks.skipComment
  if final.lineEnds then pure (found, final.takeBreak.2) else .error .malformed

end Property

end ApiContract.Yaml
