import ApiContract.Text.Digit
import ApiContract.Tree.Basic

/-! # Reading JSON

A reader over the characters that are left. Each step returns what it read and
the rest. An integer has a bound on its digits only, a number with a fraction or an
exponent is a floating number, `NaN` and the two infinities are accepted, and of two
entries with one key the later value stands in the earlier place.
-/
namespace ApiContract.JsonReader

abbrev Input := List Char

inductive Fault
  | malformed
  | tooLong
  deriving DecidableEq, Repr

abbrev Reader (α : Type) := Input → Except Fault (α × Input)

/-- A step that takes nothing makes the text malformed. -/
def taken {α : Type} : Option α → Except Fault α
  | some a => .ok a
  | none => .error .malformed

def isGap (c : Char) : Bool := c == ' ' || c == '\t' || c == '\n' || c == '\r'

def skipGaps (input : Input) : Input := input.dropWhile isGap

def literal? (word : String) (value : Tree) (input : Input) : Option (Tree × Input) :=
  let chars := word.toList
  if chars.isPrefixOf input then some (value, input.drop chars.length) else none

def isAsciiDigit (c : Char) : Bool := '0' ≤ c && c ≤ '9'

def digitsValue (digits : List Char) : Nat :=
  digits.foldl (fun n c => 10 * n + (c.toNat - 0x30)) 0

/-- The whole part of a number: zero, or digits that do not start with it. -/
def whole? : Input → Option (List Char × Input)
  | '0' :: rest => some (['0'], rest)
  | input =>
    match input.takeWhile isAsciiDigit with
    | [] => none
    | digits => some (digits, input.dropWhile isAsciiDigit)

/-- A point with at least one digit behind it; else nothing is taken. -/
def fraction : Input → List Char × Input
  | '.' :: rest =>
    match rest.takeWhile isAsciiDigit with
    | [] => ([], '.' :: rest)
    | digits => (digits, rest.dropWhile isAsciiDigit)
  | input => ([], input)

def signedDigits? (negative : Bool) (input : Input) : Option (Int × Input) :=
  match input.takeWhile isAsciiDigit with
  | [] => none
  | digits =>
    let n : Int := digitsValue digits
    some (if negative then -n else n, input.dropWhile isAsciiDigit)

def exponent? (input : Input) : Option (Int × Input) :=
  match input with
  | c :: rest =>
    if c = 'e' ∨ c = 'E' then
      match rest with
      | '+' :: more => signedDigits? false more
      | '-' :: more => signedDigits? true more
      | more => signedDigits? false more
    else none
  | [] => none

def integer (negative : Bool) (digits : List Char) : Except Fault Tree :=
  if Text.numeralLimit < digits.length then .error .tooLong
  else
    let n : Int := digitsValue digits
    .ok (.int (if negative then -n else n))

def unsigned (negative : Bool) : Reader Tree := fun input => do
  let (digits, afterWhole) ← taken (whole? input)
  let (places, afterPlaces) := fraction afterWhole
  match exponent? afterPlaces with
  | some (e, rest) =>
    let mantissa := digitsValue (digits ++ places)
    pure (.scalar (.float (.ofDecimal negative mantissa (e - places.length))), rest)
  | none =>
    if places.isEmpty then do
      let n ← integer negative digits
      pure (n, afterPlaces)
    else
      let mantissa := digitsValue (digits ++ places)
      pure (.scalar (.float (.ofDecimal negative mantissa (-(places.length : Int)))), afterPlaces)

def number : Reader Tree
  | '-' :: rest =>
    match literal? "Infinity" (.scalar (.float (.infinity true))) rest with
    | some found => .ok found
    | none => unsigned true rest
  | input => unsigned false input

def hexValue? (c : Char) : Option Nat :=
  if '0' ≤ c ∧ c ≤ '9' then some (c.toNat - 0x30)
  else if 'a' ≤ c ∧ c ≤ 'f' then some (c.toNat - 0x61 + 10)
  else if 'A' ≤ c ∧ c ≤ 'F' then some (c.toNat - 0x41 + 10)
  else none

def hexNumber? (digits : List Char) : Option Nat :=
  digits.foldl (fun acc c => acc.bind fun n => (hexValue? c).map (16 * n + ·)) (some 0)

def unit? : Input → Option (Nat × Input)
  | a :: b :: c :: d :: rest => (hexNumber? [a, b, c, d]).map fun n => (n, rest)
  | _ => none

/-- A character from its UTF-16 units; half of a pair stands for no character. -/
def escapedCode? (input : Input) : Option (Char × Input) := do
  let (first, rest) ← unit? input
  if 0xd800 ≤ first ∧ first < 0xdc00 then
    match rest with
    | '\\' :: 'u' :: more =>
      match unit? more with
      | some (second, after) =>
        if 0xdc00 ≤ second ∧ second < 0xe000 then
          pure (Char.ofNat (0x10000 + (first - 0xd800) * 0x400 + (second - 0xdc00)), after)
        else pure (Char.ofNat 0xfffd, rest)
      | none => pure (Char.ofNat 0xfffd, rest)
    | _ => pure (Char.ofNat 0xfffd, rest)
  else if 0xdc00 ≤ first ∧ first < 0xe000 then pure (Char.ofNat 0xfffd, rest)
  else pure (Char.ofNat first, rest)

def escape? : Input → Option (Char × Input)
  | '\x22' :: rest => some ('\x22', rest)
  | '\\' :: rest => some ('\\', rest)
  | '/' :: rest => some ('/', rest)
  | 'b' :: rest => some ('\x08', rest)
  | 'f' :: rest => some ('\x0c', rest)
  | 'n' :: rest => some ('\n', rest)
  | 'r' :: rest => some ('\r', rest)
  | 't' :: rest => some ('\t', rest)
  | 'u' :: rest => escapedCode? rest
  | _ => none

def quotedBody? : Nat → List Char → Input → Option (List Char × Input)
  | 0, _, _ => none
  | fuel + 1, done, input =>
    match input with
    | [] => none
    | c :: rest =>
      if c = '\x22' then some (done, rest)
      else if c = '\\' then
        match escape? rest with
        | some (e, more) => quotedBody? fuel (e :: done) more
        | none => none
      else if c.toNat < 0x20 then none
      else quotedBody? fuel (c :: done) rest

def text (fuel : Nat) : Reader String := fun input => do
  let (chars, rest) ← taken (quotedBody? fuel [] input)
  pure (String.ofList chars.reverse, rest)

def members (value : Reader Tree) : Nat → List Tree → Reader (List Tree)
  | 0, _, _ => .error .malformed
  | fuel + 1, done, input => do
    let (item, rest) ← value (skipGaps input)
    match skipGaps rest with
    | ',' :: more => members value fuel (item :: done) more
    | ']' :: more => pure ((item :: done).reverse, more)
    | _ => .error .malformed

def entry (fuel : Nat) (value : Reader Tree) : Reader (Scalar × Tree) := fun input =>
  match skipGaps input with
  | '\x22' :: rest => do
    let (key, afterKey) ← text fuel rest
    match skipGaps afterKey with
    | ':' :: more => do
      let (item, after) ← value (skipGaps more)
      pure ((.text key, item), after)
    | _ => .error .malformed
  | _ => .error .malformed

def entries (value : Reader Tree) : Nat → List (Scalar × Tree) → Reader (List (Scalar × Tree))
  | 0, _, _ => .error .malformed
  | fuel + 1, done, input => do
    let (e, rest) ← entry fuel value input
    match skipGaps rest with
    | ',' :: more => entries value fuel (e :: done) more
    | '\x7d' :: more => pure ((e :: done).reverse, more)
    | _ => .error .malformed

def value : Nat → Reader Tree
  | 0, _ => .error .malformed
  | fuel + 1, input =>
    match input with
    | '\x22' :: rest => do
      let (found, after) ← text fuel rest
      pure (.text found, after)
    | '[' :: rest =>
      match skipGaps rest with
      | ']' :: more => .ok (.list [], more)
      | more => do
        let (found, after) ← members (value fuel) fuel [] more
        pure (.list found, after)
    | '\x7b' :: rest =>
      match skipGaps rest with
      | '\x7d' :: more => .ok (.map [], more)
      | more => do
        let (found, after) ← entries (value fuel) fuel [] more
        pure (.map (Table.ofPairs found), after)
    | 'n' :: _ => taken (literal? "null" .null input)
    | 't' :: _ => taken (literal? "true" (.bool true) input)
    | 'f' :: _ => taken (literal? "false" (.bool false) input)
    | 'N' :: _ => taken (literal? "NaN" (.scalar (.float .nan)) input)
    | 'I' :: _ => taken (literal? "Infinity" (.scalar (.float (.infinity false))) input)
    | _ => number input

end ApiContract.JsonReader

namespace ApiContract

/-- The tree that a JSON text writes, with nothing but gaps around it. -/
def Tree.ofJson (text : String) : Except JsonReader.Fault Tree := do
  let input := text.toList
  let (tree, rest) ← JsonReader.value (input.length + 1) (JsonReader.skipGaps input)
  if (JsonReader.skipGaps rest).isEmpty then pure tree else .error .malformed

end ApiContract
