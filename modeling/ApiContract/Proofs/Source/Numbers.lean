import ApiContract.Proofs.Source.Constants

/-! # Enums of integers

An enum of integers has one type for all of them, and the type is chosen by the widest. Each literal
spells its value, with the suffix of its type. The choice knows the limit of 32 bits only, so that
a value of more than 64 bits gets a literal that no type of Java holds.
-/
namespace ApiContract.Source
open Outcome Lexical

variable {settings : Settings}

/-- An enum of integers: the narrower type holds all of them if it is chosen, and the literal of one
that has 64 bits denotes it. -/
structure Exact (numbers : List ℤ) (unit : EnumUnit) : Prop where
  type : numbers ≠ [] → unit.valueType = .integer ∨ unit.valueType = .long
  narrow : unit.valueType = .integer → ∀ n ∈ numbers, Holds .integer n
  wide : unit.valueType = .long → ∃ n ∈ numbers, 2 ^ 31 ≤ n.natAbs
  literals : List.Forall₂ (fun n c =>
    integer? unit.valueType c.literal = if Holds .long n then some n else none)
    numbers unit.constants

/-- The limit of the narrower type is one less below than it could be. -/
theorem holds_integer_of_natAbs {n : ℤ} (h : n.natAbs < 2 ^ 31) : Holds .integer n := by
  rw [holds_integer]
  omega

theorem holds_long_of_natAbs {n : ℤ} (h : n.natAbs < 2 ^ 31) : Holds .long n := by
  rw [holds_long]
  omega

theorem natAbs_lt_of_narrow {numbers : List ℤ}
    (h : valueTypeOf (numbers.map fun n => .scalar (.int n)) = .integer) :
    ∀ n ∈ numbers, n.natAbs < 2 ^ 31 := by
  intro n hn
  rw [valueTypeOf_integers (List.ne_nil_of_mem hn)] at h
  split at h
  · cases h
  · next hnarrow => exact Nat.not_le.mp fun hwide => hnarrow ⟨n, hn, hwide⟩

theorem exists_of_wide {numbers : List ℤ}
    (h : valueTypeOf (numbers.map fun n => .scalar (.int n)) = .long) :
    ∃ n ∈ numbers, 2 ^ 31 ≤ n.natAbs := by
  have hne : numbers ≠ [] := by
    rintro rfl
    cases h
  rw [valueTypeOf_integers hne] at h
  split at h
  · assumption
  · cases h

theorem integer?_of_literal {type : ValueType} (htype : type = .integer ∨ type = .long) {n : ℤ}
    (hnarrow : type = .integer → n.natAbs < 2 ^ 31) {source : String}
    (h : literal type (.scalar (.int n)) = .ok source) :
    integer? type source = if Holds .long n then some n else none := by
  rw [integer?, spelled?_of_literal htype h, Option.filter_some]
  rcases htype with rfl | rfl
  · have hsmall := hnarrow rfl
    rw [if_pos (decide_eq_true (holds_integer_of_natAbs hsmall)),
      if_pos (holds_long_of_natAbs hsmall)]
  · simp only [decide_eq_true_iff]

theorem succeeds_valueText (n : ℤ) :
    Succeeds (valueText (.scalar (.int n))) ↔ hasNumeral n = true := by
  have htext : valueText (.scalar (.int n)) =
      if hasNumeral n then .ok (toString n) else .error .tooLong := rfl
  rw [htext]
  exact succeeds_ite

theorem succeeds_addConstant {type : ValueType} (htype : type = .integer ∨ type = .long) (n : ℤ)
    (constants : List ConstantUnit) :
    Succeeds (addConstant type constants (.scalar (.int n))) ↔
      Succeeds (valueText (.scalar (.int n))) := by
  have hliteral : Succeeds (literal type (.scalar (.int n))) ↔ hasNumeral n = true := by
    rcases htype with rfl | rfl
    · rw [literal_integer]
      exact succeeds_ite
    · rw [literal_long]
      exact succeeds_ite
  have hstep : Succeeds (addConstant type constants (.scalar (.int n))) ↔
      Succeeds (valueText (.scalar (.int n))) ∧ hasNumeral n = true :=
    succeeds_bind fun text => (succeeds_bind_ok fun written => succeeds_ok _).trans hliteral
  rw [hstep, succeeds_valueText, and_self_iff]

theorem succeeds_enumUnit {enum : EnumType} {numbers : List ℤ}
    (hvalues : (enum.values.filter fun v => !v.isNull) = numbers.map fun n => .scalar (.int n)) :
    Succeeds (enumUnit settings enum) ↔
      (∀ n ∈ numbers, hasNumeral n = true) ∧ Succeeds (Doc.renderDescription enum.description) := by
  have hunit : Succeeds (enumUnit settings enum) ↔
      Succeeds ((enum.values.filter fun v => !v.isNull).foldlM
        (addConstant (valueTypeOf (enum.values.filter fun v => !v.isNull))) []) ∧
      Succeeds (Doc.renderDescription enum.description) :=
    succeeds_bind fun constants => succeeds_bind_ok fun comment => succeeds_ok _
  have hstep : ∀ constants, ∀ v ∈ numbers.map fun n => Tree.scalar (.int n),
      Succeeds (addConstant (valueTypeOf (numbers.map fun n => .scalar (.int n))) constants v) ↔
        Succeeds (valueText v) := by
    intro constants v hv
    obtain ⟨n, hn, rfl⟩ := List.mem_map.mp hv
    exact succeeds_addConstant (integer_or_long (List.ne_nil_of_mem hn)) n constants
  rw [hunit, hvalues, succeeds_foldlM hstep, List.forall_mem_map]
  simp only [succeeds_valueText]

/-- Integers that are not too long to be written become an enum, each with a literal for it. The
literal is one of its type just if the integer has 64 bits. -/
theorem integers_of_enumUnit {enum : EnumType} {numbers : List ℤ}
    (hvalues : (enum.values.filter fun v => !v.isNull) = numbers.map fun n => .scalar (.int n)) :
    (Succeeds (enumUnit settings enum) ↔
      (∀ n ∈ numbers, hasNumeral n = true) ∧ Succeeds (Doc.renderDescription enum.description)) ∧
      ∀ unit, enumUnit settings enum = .ok unit → Exact numbers unit := by
  refine ⟨succeeds_enumUnit hvalues, fun unit h => ?_⟩
  obtain ⟨htype, hrepresents, -⟩ := represents_enumUnit h
  rw [hvalues] at htype hrepresents
  have hkind : numbers ≠ [] → unit.valueType = .integer ∨ unit.valueType = .long :=
    fun hne => htype ▸ integer_or_long hne
  have hnarrow : unit.valueType = .integer → ∀ n ∈ numbers, n.natAbs < 2 ^ 31 :=
    fun hinteger => natAbs_lt_of_narrow (htype.symm.trans hinteger)
  refine ⟨hkind, fun hinteger n hn => holds_integer_of_natAbs (hnarrow hinteger n hn),
    fun hlong => exists_of_wide (htype.symm.trans hlong), ?_⟩
  rw [List.forall₂_map_left_iff] at hrepresents
  refine ((List.forall₂_and_left _ _).mpr ⟨fun n hn => hn, hrepresents⟩).imp ?_
  rintro n c ⟨hn, hc⟩
  exact integer?_of_literal (hkind (List.ne_nil_of_mem hn)) (fun h => hnarrow h n hn) hc.written

/-- The limits of 32 and of 64 bits, below and above. -/
def limits : List ℤ := [-2 ^ 63, -2 ^ 31, 2 ^ 31 - 1, 2 ^ 31, 2 ^ 63 - 1]

def limitsEnum : EnumType := { name := "Limits", values := limits.map fun n => .scalar (.int n) }

theorem integers_of_enumUnit_limits :
    ∃ unit, enumUnit {} limitsEnum = .ok unit ∧
      unit.constants.map ConstantUnit.literal = ["-9223372036854775808L", "-2147483648L",
        "2147483647L", "2147483648L", "9223372036854775807L"] ∧ Exact limits unit := by
  obtain ⟨unit, hunit, hliterals⟩ := exists_of_map_toOption (o := enumUnit {} limitsEnum)
    (f := fun unit => unit.constants.map ConstantUnit.literal)
    (b := ["-9223372036854775808L", "-2147483648L", "2147483647L", "2147483648L",
      "9223372036854775807L"]) (by decide +kernel)
  have hvalues : (limitsEnum.values.filter fun v => !v.isNull) =
      limits.map fun n => .scalar (.int n) := by rfl
  exact ⟨unit, hunit, hliterals, (integers_of_enumUnit hvalues).2 unit hunit⟩

/-- A value of more than 64 bits has a literal that no `long` holds. -/
theorem long_literal_too_wide :
    ∃ unit, enumUnit {} { name := "Big", values := [.scalar (.int (2 ^ 63))] } = .ok unit ∧
      unit.valueType = .long ∧ unit.constants.map ConstantUnit.literal = ["9223372036854775808L"] ∧
      ¬ Holds .long (2 ^ 63) ∧ ∀ c ∈ unit.constants, integer? unit.valueType c.literal = none := by
  obtain ⟨unit, hunit, hparts⟩ := exists_of_map_toOption
    (o := enumUnit {} { name := "Big", values := [.scalar (.int (2 ^ 63))] })
    (f := fun unit => (unit.valueType, unit.constants.map ConstantUnit.literal))
    (b := (.long, ["9223372036854775808L"])) (by decide +kernel)
  obtain ⟨htype, hliterals⟩ := Prod.mk.inj hparts
  refine ⟨unit, hunit, htype, hliterals, by decide, ?_⟩
  rw [← List.forall_mem_map (P := fun l => integer? unit.valueType l = none), hliterals, htype]
  decide +kernel

end ApiContract.Source
