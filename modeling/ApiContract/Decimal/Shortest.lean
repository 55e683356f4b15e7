import ApiContract.Decimal.Binary64

/-! # The shortest decimal that reads back

The reals that round to a floating number form an interval, closed when the
significand is even. For one digit, two digits, and so on, the two neighbours of
the number on that decimal grid are tried; the first grid with a point in the
interval wins, and of two points the nearer.
-/
namespace ApiContract.Decimal

/-- An interval around a value, all as numerators over one denominator. -/
structure Neighbourhood where
  low : Nat
  value : Nat
  high : Nat
  den : Nat
  closed : Bool

def neighbourhood (x : Binary64) : Neighbourhood :=
  let (m, q) := x.significand
  let below := if m = Nat.pow 2 52 ∧ q > -1074 then 4 * m - 1 else 4 * m - 2
  let scale := Nat.pow 2 (q - 2).toNat
  { low := below * scale, value := 4 * m * scale, high := (4 * m + 2) * scale,
    den := Nat.pow 2 (2 - q).toNat, closed := m % 2 == 0 }

def Neighbourhood.admits (box : Neighbourhood) (n d : Nat) : Bool :=
  let x := n * box.den
  if box.closed then box.low * d ≤ x && x ≤ box.high * d
  else box.low * d < x && x < box.high * d

/-- The exponent `p` with `10 ^ p ≤ value < 10 ^ (p + 1)`. -/
def Neighbourhood.leading (box : Neighbourhood) : Int :=
  if box.value ≥ box.den then ((Nat.toDigits 10 (box.value / box.den)).length : Int) - 1
  else
    let size := (Nat.toDigits 10 (box.den / box.value)).length
    if box.value * Nat.pow 10 (size - 1) ≥ box.den then 1 - (size : Int) else -(size : Int)

structure Digits where
  digits : Nat
  exponent : Int
  deriving DecidableEq, Repr

def gridPoint? (box : Neighbourhood) (exponent : Int) : Option Digits :=
  let (num, den) :=
    if exponent ≥ 0 then (box.value, box.den * Nat.pow 10 exponent.toNat)
    else (box.value * Nat.pow 10 (-exponent).toNat, box.den)
  let down := num / den
  let fits (n : Nat) : Bool :=
    if exponent ≥ 0 then box.admits (n * Nat.pow 10 exponent.toNat) 1
    else box.admits n (Nat.pow 10 (-exponent).toNat)
  let twice := 2 * (num % den)
  let upFirst := twice > den ∨ (twice = den ∧ down % 2 = 1)
  match fits down, fits (down + 1) with
  | true, true => some ⟨if upFirst then down + 1 else down, exponent⟩
  | true, false => some ⟨down, exponent⟩
  | false, true => some ⟨down + 1, exponent⟩
  | false, false => none

def shortest (x : Binary64) : Digits :=
  let box := neighbourhood x
  let p := box.leading
  ((List.range 17).findSome? fun (i : Nat) => gridPoint? box (p - i)).getD
    ⟨x.significand.1, 0⟩

/-- How a decimal is laid out: the exponents written without one, the least width
of a written exponent, and the names of what is no number. -/
structure Layout where
  lowest : Int
  highest : Int
  exponentWidth : Nat
  infinity : String
  nan : String

def digitText (n : Nat) : List Char := Nat.toDigits 10 n

def padLeft (width : Nat) (text : List Char) : List Char :=
  List.replicate (width - text.length) '0' ++ text

def dropZeros : List Char → List Char
  | [] => []
  | c :: rest => c :: (rest.reverse.dropWhile (· = '0')).reverse

/-- The significant digits and the exponent of the first of them. -/
def normalized (d : Digits) : List Char × Int :=
  let text := digitText d.digits
  (dropZeros text, d.exponent + text.length - 1)

/-- Digits with a point after the first `whole` of them, zeros where they run out. -/
def pointed (whole : Nat) (digits : List Char) : List Char :=
  let front := digits.take whole ++ List.replicate (whole - digits.length) '0'
  let back := digits.drop whole
  front ++ '.' :: (if back.isEmpty then ['0'] else back)

def positional (lead : Int) (digits : List Char) : List Char :=
  if lead ≥ 0 then pointed (lead.toNat + 1) digits
  else ['0', '.'] ++ List.replicate (-lead - 1).toNat '0' ++ digits

def scientific (width : Nat) (lead : Int) (digits : List Char) : List Char :=
  let mantissa := match digits with
    | c :: d :: rest => c :: '.' :: d :: rest
    | short => short
  let sign := if lead < 0 then '-' else '+'
  mantissa ++ 'e' :: sign :: padLeft width (digitText lead.natAbs)

def Layout.write (layout : Layout) (x : Binary64) : String :=
  if x.isNaN then layout.nan else
    let body :=
      if x.isInfinite then layout.infinity.toList
      else if x.isZero then ['0', '.', '0']
      else
        let (digits, lead) := normalized (shortest x)
        if layout.lowest ≤ lead ∧ lead ≤ layout.highest then positional lead digits
        else scientific layout.exponentWidth lead digits
    String.ofList (if x.isNegative then '-' :: body else body)

end ApiContract.Decimal
