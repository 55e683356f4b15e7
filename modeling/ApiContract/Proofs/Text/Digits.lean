import Mathlib.Algebra.Group.Nat.Defs
import Mathlib.Data.Nat.Basic
import ApiContract.Text.Digit

/-! # Numbers written in digits

A text is read as a number when all its digits have place values, and its length gives the
size of the number. Of the digits of all scripts those of the keyboard come first, so that a
number written in them is read back.
-/
namespace ApiContract.Text

variable {c : Char} {digits rest : List Char} {d n start : ℕ}

theorem toNat_of_isDigit (h : c.isDigit = true) : 48 ≤ c.toNat ∧ c.toNat < 58 := by
  simp only [Char.isDigit, Bool.and_eq_true, decide_eq_true_eq, ge_iff_le,
    UInt32.le_iff_toNat_le] at h
  exact ⟨h.1, Nat.lt_succ_of_le h.2⟩

theorem decimalValue?_of_isDigit (h : c.isDigit = true) :
    decimalValue? c = some (c.toNat - 48) := by
  have hrange := toNat_of_isDigit h
  simp [decimalValue?, decimalZeros, hrange]

theorem decimalValue?_lt (h : decimalValue? c = some d) : d < 10 := by
  obtain ⟨base, hbase, rfl⟩ := Option.map_eq_some_iff.mp h
  have hrange := List.find?_some hbase
  simp only [Bool.and_eq_true, decide_eq_true_eq] at hrange
  omega

theorem isDecimal_of_isDigit (h : c.isDigit = true) : isDecimal c = true := by
  rw [isDecimal, decimalValue?_of_isDigit h, Option.isSome_some]

theorem isDigitLike_of_isDecimal (h : isDecimal c = true) : isDigitLike c = true := by
  rw [isDigitLike, h, Bool.true_or]

/-- The digits of the keyboard are digits of some script. -/
theorem isDigitLike_of_isDigit (h : c.isDigit = true) : isDigitLike c = true :=
  isDigitLike_of_isDecimal (isDecimal_of_isDigit h)

/-- The number that the digits make of the number before them. -/
def continued? (digits : List Char) (start : ℕ) : Option ℕ :=
  digits.foldl (fun acc c => acc.bind fun n => (decimalValue? c).map (10 * n + ·)) (some start)

theorem readDecimal?_eq_continued? : readDecimal? digits = continued? digits 0 := rfl

theorem continued?_cons :
    continued? (c :: rest) start =
      (decimalValue? c).bind fun d => continued? rest (10 * start + d) := by
  have hnone : ∀ rest : List Char, rest.foldl (fun acc c =>
      acc.bind fun n => (decimalValue? c).map (10 * n + ·)) none = none := by
    intro rest
    induction rest with
    | nil => rfl
    | cons c rest ih => exact ih
  rw [continued?, List.foldl_cons, Option.bind_some]
  cases decimalValue? c with
  | none => exact hnone rest
  | some d => rfl

theorem isSome_continued? :
    (continued? digits start).isSome = true ↔ ∀ c ∈ digits, isDecimal c = true := by
  induction digits generalizing start with
  | nil => simp [continued?]
  | cons c rest ih =>
    rw [continued?_cons, List.forall_mem_cons, isDecimal]
    cases decimalValue? c with
    | none => simp
    | some d => simp [ih]

/-- The number of digits tells how much larger a number gets. -/
theorem continued?_bounds (h : continued? digits start = some n) :
    start * 10 ^ digits.length ≤ n ∧ n < (start + 1) * 10 ^ digits.length := by
  induction digits generalizing start with
  | nil =>
    cases h
    simp
  | cons c rest ih =>
    rw [continued?_cons] at h
    obtain ⟨d, hd, hrest⟩ := Option.bind_eq_some_iff.mp h
    obtain ⟨hlow, hhigh⟩ := ih hrest
    have hdigit := decimalValue?_lt hd
    have hfirst : start * 10 * 10 ^ rest.length ≤ (10 * start + d) * 10 ^ rest.length :=
      Nat.mul_le_mul_right _ (by omega)
    have hlast : (10 * start + d + 1) * 10 ^ rest.length ≤ (start + 1) * 10 * 10 ^ rest.length :=
      Nat.mul_le_mul_right _ (by omega)
    rw [List.length_cons, Nat.pow_succ', ← Nat.mul_assoc, ← Nat.mul_assoc]
    exact ⟨le_trans hfirst hlow, lt_of_lt_of_le hhigh hlast⟩

/-- Digits of the keyboard are read as the number that they write. -/
theorem continued?_of_isDigit (h : ∀ c ∈ digits, c.isDigit = true) :
    continued? digits start = some (Nat.ofDigitChars 10 digits start) := by
  induction digits generalizing start with
  | nil => rfl
  | cons c rest ih =>
    rw [continued?_cons, decimalValue?_of_isDigit (h c List.mem_cons_self), Option.bind_some,
      ih fun d hd => h d (List.mem_cons_of_mem _ hd)]
    rfl

theorem numeral?_eq_some :
    numeral? digits = some n ↔
      digits ≠ [] ∧ digits.length ≤ numeralLimit ∧ continued? digits 0 = some n := by
  simp [numeral?, readDecimal?_eq_continued?, and_assoc]

theorem isDecimal_of_numeral? (h : numeral? digits = some n) : ∀ c ∈ digits, isDecimal c = true :=
  isSome_continued?.mp (Option.isSome_iff_exists.mpr ⟨n, (numeral?_eq_some.mp h).2.2⟩)

/-- No number is read from no digits, from too many, and from digits without a place value. -/
theorem numeral?_eq_none :
    numeral? digits = none ↔
      digits = [] ∨ numeralLimit < digits.length ∨ ∃ c ∈ digits, isDecimal c = false := by
  have hread : continued? digits 0 = none ↔ ∃ c ∈ digits, isDecimal c = false := by
    rw [← Option.not_isSome_iff_eq_none, isSome_continued?]
    simp
  by_cases hne : digits = []
  · simp [numeral?, hne]
  · by_cases hlong : numeralLimit < digits.length <;>
      simp [numeral?, readDecimal?_eq_continued?, hne, hlong, hread]

/-- A number is not read only if there are too many digits. -/
theorem numeral?_eq_none_iff (hne : digits ≠ []) (h : ∀ c ∈ digits, isDecimal c = true) :
    numeral? digits = none ↔ numeralLimit < digits.length := by
  have hvalues : ¬∃ c ∈ digits, isDecimal c = false := by simpa using h
  rw [numeral?_eq_none, or_iff_right hne, or_iff_left hvalues]

/-- The size of a number of which the first digit is known. -/
theorem numeral?_bounds (hd : decimalValue? c = some d) (h : numeral? (c :: rest) = some n) :
    d * 10 ^ rest.length ≤ n ∧ n < (d + 1) * 10 ^ rest.length := by
  obtain ⟨-, -, hn⟩ := numeral?_eq_some.mp h
  rw [continued?_cons, hd, Option.bind_some, Nat.mul_zero, Nat.zero_add] at hn
  exact continued?_bounds hn

/-- A number that is written out is read back, unless it has too many digits. -/
theorem numeral?_toDigits (n : ℕ) :
    numeral? (Nat.toDigits 10 n) = if n < 10 ^ numeralLimit then some n else none := by
  have hread : continued? (Nat.toDigits 10 n) 0 = some n := by
    rw [continued?_of_isDigit fun c hc => Nat.isDigit_of_mem_toDigits (by decide) (by decide) hc,
      Nat.ofDigitChars_ten_toDigits]
  have hlength : numeralLimit < (Nat.toDigits 10 n).length ↔ ¬ n < 10 ^ numeralLimit := by
    rw [← Nat.length_toDigits_le_iff (by decide) (by decide), not_le]
  have hne : (Nat.toDigits 10 n).isEmpty = false := by simp [Nat.toDigits_ne_nil]
  unfold numeral?
  by_cases hn : n < 10 ^ numeralLimit <;>
    simp [hne, readDecimal?_eq_continued?, hread, hlength, hn]

end ApiContract.Text
