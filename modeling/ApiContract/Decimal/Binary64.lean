/-! # Floating numbers of 64 bits

A floating number is kept as its bit pattern. A finite one is `m * 2 ^ q` up to
sign, and a quotient of natural numbers is rounded to the nearest of them, a tie
going to the even one.
-/
namespace ApiContract

structure Binary64 where
  bits : UInt64
  deriving DecidableEq, Repr, Inhabited

namespace Binary64

def isNegative (x : Binary64) : Bool := x.bits.toNat ≥ Nat.pow 2 63

def magnitudeBits (x : Binary64) : Nat := x.bits.toNat % Nat.pow 2 63

def infinityBits : Nat := 0x7ff * Nat.pow 2 52

def isInfinite (x : Binary64) : Bool := x.magnitudeBits == infinityBits

def isNaN (x : Binary64) : Bool := x.magnitudeBits > infinityBits

def isZero (x : Binary64) : Bool := x.magnitudeBits == 0

/-- The pair `(m, q)` of a finite magnitude `m * 2 ^ q`. -/
def significand (x : Binary64) : Nat × Int :=
  let field : Nat := x.magnitudeBits / Nat.pow 2 52
  let fraction : Nat := x.magnitudeBits % Nat.pow 2 52
  if field = 0 then (fraction, -1074) else (Nat.pow 2 52 + fraction, (field : Int) - 1075)

def ofMagnitude (negative : Bool) (magnitude : Nat) : Binary64 :=
  ⟨UInt64.ofNat (if negative then magnitude + Nat.pow 2 63 else magnitude)⟩

def infinity (negative : Bool) : Binary64 := ofMagnitude negative infinityBits

def nan : Binary64 := ofMagnitude false (infinityBits + Nat.pow 2 51)

/-- A quotient rounded to the nearest natural number, a half to the even one. -/
def divRound (n d : Nat) : Nat :=
  let low := n / d
  let twice := 2 * (n % d)
  if twice > d ∨ (twice = d ∧ low % 2 = 1) then low + 1 else low

def scaleDown (n d : Nat) (q : Int) : Nat × Nat :=
  if q ≥ 0 then (n, d * Nat.pow 2 q.toNat) else (n * Nat.pow 2 (-q).toNat, d)

/-- The magnitude nearest to `n / d`; none when it exceeds every finite one. -/
def roundQuotient? (n d : Nat) : Option Nat :=
  if n = 0 then some 0 else
    let start : Int := (n.log2 : Int) - d.log2 - 53
    let (n₁, d₁) := scaleDown n d start
    let q := max (if n₁ / d₁ ≥ Nat.pow 2 53 then start + 1 else start) (-1074)
    let (n₂, d₂) := scaleDown n d q
    let m := divRound n₂ d₂
    let magnitude :=
      if m < Nat.pow 2 52 then m
      else if m = Nat.pow 2 53 then ((q + 1076).toNat) * Nat.pow 2 52
      else ((q + 1075).toNat) * Nat.pow 2 52 + (m - Nat.pow 2 52)
    if magnitude < infinityBits then some magnitude else none

/-- The number written `digits * 10 ^ exponent`, as the nearest floating number. -/
def ofDecimal (negative : Bool) (digits : Nat) (exponent : Int) : Binary64 :=
  let places : Int := (Nat.toDigits 10 digits).length
  if digits = 0 ∨ places + exponent < -400 then ofMagnitude negative 0
  else if places + exponent > 400 then infinity negative
  else
    let magnitude? :=
      if exponent ≥ 0 then roundQuotient? (digits * Nat.pow 10 exponent.toNat) 1
      else roundQuotient? digits (Nat.pow 10 (-exponent).toNat)
    match magnitude? with
    | some magnitude => ofMagnitude negative magnitude
    | none => infinity negative

def ofInt? (n : Int) : Option Binary64 :=
  (roundQuotient? n.natAbs 1).map (ofMagnitude (n < 0))

def toInt? (x : Binary64) : Option Int :=
  if x.isNaN || x.isInfinite then none else
    let (m, q) := x.significand
    let size? : Option Nat :=
      if q ≥ 0 then some (m * Nat.pow 2 q.toNat)
      else if m % Nat.pow 2 (-q).toNat = 0 then some (m / Nat.pow 2 (-q).toNat) else none
    size?.map fun size => if x.isNegative then -(size : Int) else size

end Binary64

end ApiContract
