import ApiContract.Decimal.Binary64
import ApiContract.Text.Cut
import ApiContract.Text.Digit
import ApiContract.Tree.JsonReader
import ApiContract.Yaml.Cursor

/-! # Numbers in plain text

An integer is binary, octal, decimal, hexadecimal or in sixties; a floating number
has a point and perhaps an exponent with its sign, or is in sixties with a point.
Low lines may stand between digits.
-/
namespace ApiContract.Yaml.Number

def isDigit (c : Char) : Bool := JsonReader.isAsciiDigit c

def isDigitOrLine (c : Char) : Bool := isDigit c || c == '_'

def isBinary (c : Char) : Bool := c == '0' || c == '1' || c == '_'

def isOctal (c : Char) : Bool := ('0' ≤ c && c ≤ '7') || c == '_'

def isHex (c : Char) : Bool := (JsonReader.hexValue? c).isSome || c == '_'

def dropSign : List Char → List Char
  | '+' :: rest => rest
  | '-' :: rest => rest
  | text => text

def isNegative (text : List Char) : Bool := text.head? == some '-'

def allOf (p : Char → Bool) (text : List Char) : Bool := !text.isEmpty && text.all p

def isNumeral (text : List Char) : Bool := text.head?.any isDigit && text.all isDigitOrLine

/-- A place of a number in sixties behind the first. -/
def isSixtieth : List Char → Bool
  | [a] => isDigit a
  | [a, b] => '0' ≤ a && a ≤ '5' && isDigit b
  | _ => false

def inSixties (text : List Char) : Bool :=
  match Text.splitAt ':' text with
  | first :: second :: rest => isNumeral first && (second :: rest).all isSixtieth
  | _ => false

def isInt (text : List Char) : Bool :=
  match dropSign text with
  | '0' :: 'b' :: digits => allOf isBinary digits
  | '0' :: 'x' :: digits => allOf isHex digits
  | '0' :: digits => digits.all isOctal
  | body => isNumeral body || inSixties body

def isExponent : List Char → Bool
  | e :: sign :: digits =>
    (e == 'e' || e == 'E') && (sign == '+' || sign == '-') && allOf isDigit digits
  | _ => false

/-- Places behind the point, with an exponent or none. -/
def isFraction (text : List Char) : Bool :=
  match text.dropWhile isDigitOrLine with
  | [] => true
  | tail => isExponent tail

def isInfinite (text : List Char) : Bool :=
  [".inf", ".Inf", ".INF"].any fun w => text == w.toList

def isNaN (text : List Char) : Bool := [".nan", ".NaN", ".NAN"].any fun w => text == w.toList

def hasPoint (body : List Char) : Bool :=
  match body.dropWhile (· != '.') with
  | _ :: places =>
    let whole := body.takeWhile (· != '.')
    (isNumeral whole && isFraction places) || (inSixties whole && places.all isDigitOrLine)
  | [] => false

def isFloat (text : List Char) : Bool :=
  hasPoint (dropSign text) || isInfinite (dropSign text) || isNaN text ||
    match text with
    | '.' :: places => places.head?.any isDigit && isFraction places
    | _ => false

def withoutLines (text : List Char) : List Char := text.filter (· != '_')

def decimal (digits : List Char) : Result Nat :=
  match Text.numeral? digits with
  | some n => .ok n
  | none => .error .notNumber

/-- The value of digits to a base, when each is below it. -/
def based (base : Nat) (digits : List Char) : Result Nat :=
  let value? := digits.foldl (fun acc c => acc.bind fun n =>
    (JsonReader.hexValue? c).bind fun d => if d < base then some (base * n + d) else none) (some 0)
  match value? with
  | some n => if digits.isEmpty then .error .notNumber else .ok n
  | none => .error .notNumber

def magnitude (body : List Char) : Result Nat :=
  match body with
  | ['0'] => .ok 0
  | '0' :: 'b' :: digits => based 2 digits
  | '0' :: 'x' :: digits => based 16 digits
  | '0' :: _ => based 8 body
  | _ => do
    let places ← (Text.splitAt ':' body).mapM decimal
    pure (places.foldl (fun n d => 60 * n + d) 0)

def int (text : List Char) : Result Int := do
  let digits := withoutLines text
  let body := dropSign digits
  if body.isEmpty then .error .outOfRange
  let n ← magnitude body
  pure (if isNegative digits then -(n : Int) else n)

def exponent (text : List Char) : Result Int :=
  match text with
  | [] => .ok 0
  | mark :: digits =>
    if mark == 'e' && allOf isDigit (dropSign digits) then
      let n := JsonReader.digitsValue (dropSign digits)
      .ok (if isNegative digits then -(n : Int) else n)
    else .error .notNumber

/-- The floating number of digits with at most one point and an exponent. -/
def decimalFloat (negative : Bool) (body : List Char) : Result Binary64 := do
  let whole := body.takeWhile isDigit
  let afterWhole := body.dropWhile isDigit
  let behindPoint := if afterWhole.head? == some '.' then afterWhole.tail else afterWhole
  let places :=
    if afterWhole.head? == some '.' then behindPoint.takeWhile isDigit else []
  let e ← exponent (behindPoint.drop places.length)
  if (whole ++ places).isEmpty then .error .notNumber
  let mantissa := JsonReader.digitsValue (whole ++ places)
  pure (.ofDecimal negative mantissa (e - places.length))

/-- The sum of places in sixties, the last one counted first. -/
def sixtiesFloat (places : List Binary64) : Binary64 :=
  let sum := places.reverse.foldl
    (fun (s : Float × Float) p => (s.1 + Float.ofBits p.bits * s.2, s.2 * 60)) (0, 1)
  ⟨sum.1.toBits⟩

def float (text : List Char) : Result Binary64 := do
  let digits := (withoutLines text).map Char.toLower
  let negative := isNegative digits
  let body := dropSign digits
  if body.isEmpty then .error .outOfRange
  if isInfinite body then pure (.infinity negative)
  else if isNaN body then pure .nan
  else if body.contains ':' then
    let places ← (Text.splitAt ':' body).mapM (decimalFloat false)
    let sum := sixtiesFloat places
    pure (if negative then .ofMagnitude true sum.magnitudeBits else sum)
  else decimalFloat negative body

end ApiContract.Yaml.Number
