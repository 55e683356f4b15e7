import Mathlib.Data.Nat.Digits.Defs
import ApiContract.Source.Enum

/-! # Integer literals

A decimal literal of Java source is a numeral without a leading zero, with a suffix if it is that
of a `long`. Behind a minus the numeral may be one greater than without, and beyond that the
literal is none. What is read here is the number that a literal spells and, apart from it, whether
its type holds the number.
-/
namespace ApiContract.Lexical

/-- The number of a decimal numeral; one with a leading zero is octal. -/
def decimal? (digits : List Char) : Option ℕ :=
  if digits.all Char.isDigit && (digits == ['0'] || digits.head?.any (· ≠ '0')) then
    some (Nat.ofDigitChars 10 digits 0)
  else none

/-- The number that a numeral spells, which may have a minus. -/
def signed? (text : List Char) : Option ℤ :=
  match text with
  | '-' :: digits => (decimal? digits).map fun n => -(n : ℤ)
  | digits => (decimal? digits).map fun n => (n : ℤ)

/-- The number that a literal of the type spells, whether or not the type holds it. -/
def spelled? (type : Source.ValueType) (literal : String) : Option ℤ :=
  match type with
  | .integer => signed? literal.toList
  | .long =>
    if literal.toList.getLast?.any fun c => c = 'L' ∨ c = 'l' then signed? literal.toList.dropLast
    else none
  | _ => none

/-- The width of the two types of integers. -/
def width : Source.ValueType → ℕ
  | .integer => 32
  | _ => 64

def Holds (type : Source.ValueType) (n : ℤ) : Prop :=
  -2 ^ (width type - 1) ≤ n ∧ n < 2 ^ (width type - 1)

instance (type : Source.ValueType) (n : ℤ) : Decidable (Holds type n) :=
  inferInstanceAs (Decidable (_ ∧ _))

theorem holds_integer {n : ℤ} : Holds .integer n ↔ -2 ^ 31 ≤ n ∧ n < 2 ^ 31 := Iff.rfl

theorem holds_long {n : ℤ} : Holds .long n ↔ -2 ^ 63 ≤ n ∧ n < 2 ^ 63 := Iff.rfl

/-- The number of a literal of the type; one that the type does not hold is an error in Java. -/
def integer? (type : Source.ValueType) (literal : String) : Option ℤ :=
  (spelled? type literal).filter fun n => Holds type n

theorem head_toDigits {n : ℕ} (hn : 0 < n) :
    ∃ c rest, Nat.toDigits 10 n = c :: rest ∧ c ≠ '0' := by
  induction n using Nat.strong_induction_on with
  | _ n ih =>
    by_cases hsmall : n < 10
    · have hchars : ∀ n < 10, 0 < n → n.digitChar ≠ '0' := by decide
      exact ⟨n.digitChar, [], Nat.toDigits_of_lt_base hsmall, hchars n hsmall hn⟩
    · obtain ⟨c, rest, hcut, hc⟩ := ih (n / 10) (by omega) (by omega)
      refine ⟨c, rest ++ [(n % 10).digitChar], ?_, hc⟩
      rw [Nat.toDigits_of_base_le (by decide) (by omega), hcut, List.cons_append]

theorem decimal?_toDigits (n : ℕ) : decimal? (Nat.toDigits 10 n) = some n := by
  have hdigits : (Nat.toDigits 10 n).all Char.isDigit = true :=
    List.all_eq_true.mpr fun c hc => Nat.isDigit_of_mem_toDigits (by decide) (by decide) hc
  have hstart : (Nat.toDigits 10 n == ['0'] || (Nat.toDigits 10 n).head?.any (· ≠ '0')) = true := by
    rcases Nat.eq_zero_or_pos n with rfl | hn
    · decide
    · obtain ⟨c, rest, hcut, hc⟩ := head_toDigits hn
      simp [hcut, hc]
  rw [decimal?, hdigits, hstart, Bool.and_self, if_pos rfl, Nat.ofDigitChars_ten_toDigits]

theorem toList_toString_nat (n : ℕ) : (toString n).toList = Nat.toDigits 10 n := by
  rw [Nat.toString_eq_ofList_toDigits, String.toList_ofList]

/-- An integer that is written out is the number that is spelled. -/
theorem signed?_toString (n : ℤ) : signed? (toString n).toList = some n := by
  cases n with
  | ofNat n =>
    have htext : (toString (Int.ofNat n)).toList = Nat.toDigits 10 n := toList_toString_nat n
    rw [htext]
    unfold signed?
    split
    · next digits hminus =>
      have hdigit := Nat.isDigit_of_mem_toDigits (b := 10) (by decide) (by decide)
        (hminus ▸ List.mem_cons_self : '-' ∈ Nat.toDigits 10 n)
      exact absurd hdigit (by decide)
    · rw [decimal?_toDigits]
      rfl
  | negSucc n =>
    have htext : (toString (Int.negSucc n)).toList = '-' :: Nat.toDigits 10 (n + 1) := by
      have hminus : toString (Int.negSucc n) = "-" ++ toString (n + 1) := rfl
      rw [hminus, String.toList_append, toList_toString_nat]
      rfl
    rw [htext, signed?, decimal?_toDigits]
    rfl

theorem spelled?_integer (n : ℤ) : spelled? .integer (toString n) = some n := signed?_toString n

theorem spelled?_long (n : ℤ) : spelled? .long (toString n ++ "L") = some n := by
  have htext : (toString n ++ "L").toList = (toString n).toList ++ ['L'] := String.toList_append
  rw [spelled?, htext, List.getLast?_append, List.dropLast_concat, signed?_toString]
  rfl

end ApiContract.Lexical
