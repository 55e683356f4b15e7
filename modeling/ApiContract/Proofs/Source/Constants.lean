import Mathlib.Data.List.Forall2
import ApiContract.Proofs.Lexical.Integer
import ApiContract.Proofs.Naming.Capitals
import ApiContract.Proofs.Source.Annotations

/-! # The constants of an enum

A value that is not null becomes a constant that is called after its text. Texts of values may fall
together when they are made words in capitals, and then their constants are numbered, so that no two
have one name. Where all values are of one kind, different ones have different literals, and the
search for a value among the constants finds its own.
-/
namespace ApiContract.Source
open Naming Outcome Lexical

variable {settings : Settings} {type : ValueType}

/-- What a value becomes: a constant that is called after its text, or with a number behind that,
and the literal of the value. -/
structure Represents (type : ValueType) (value : Tree) (c : ConstantUnit) : Prop where
  named : ∃ text, valueText value = .ok text ∧
    (c.name = constantName text ∨ ∃ n, c.name = numbered (constantName text) "_" n)
  written : literal type value = .ok c.literal

theorem exists_of_addConstant {constants next : List ConstantUnit} {value : Tree}
    (h : addConstant type constants value = .ok next) :
    ∃ text c, valueText value = .ok text ∧ next = constants ++ [c] ∧
      c.name = fresh (constants.map ConstantUnit.name) (constantName text) "_" ∧
      literal type value = .ok c.literal := by
  obtain ⟨text, htext, h⟩ := bind_eq_ok.mp h
  obtain ⟨written, hwritten, h⟩ := bind_eq_ok.mp h
  cases h
  exact ⟨text, _, htext, rfl, rfl, hwritten⟩

theorem represents_addConstant {constants next : List ConstantUnit} {value : Tree}
    (h : addConstant type constants value = .ok next) :
    ∃ c, next = constants ++ [c] ∧ Represents type value c := by
  obtain ⟨text, c, htext, hnext, hname, hwritten⟩ := exists_of_addConstant h
  exact ⟨c, hnext, ⟨text, htext, hname ▸ fresh_eq _ _ _⟩, hwritten⟩

theorem legalNames_addConstant {constants next : List ConstantUnit} {value : Tree}
    (hnames : LegalNames (constants.map ConstantUnit.name))
    (h : addConstant type constants value = .ok next) :
    LegalNames (next.map ConstantUnit.name) := by
  obtain ⟨text, c, -, rfl, hname, -⟩ := exists_of_addConstant h
  have hword : (constantName text).toList = constantWord text.toList := String.toList_ofList
  have hbase : IsIdentifier (constantName text).toList :=
    hword ▸ isIdentifier_constantWord text.toList
  have hfree : isReserved (constantName text).toList = false := hword ▸ not_isReserved_legal _
  rw [List.map_append, List.map_singleton, hname]
  exact hnames.concat_fresh hbase hfree (by simp [isPart])

/-- Each value that is not null has its constant, in their order, and the names are legal. -/
theorem represents_enumUnit {enum : EnumType} {unit : EnumUnit}
    (h : enumUnit settings enum = .ok unit) :
    unit.valueType = valueTypeOf (enum.values.filter fun v => !v.isNull) ∧
      List.Forall₂ (Represents unit.valueType) (enum.values.filter fun v => !v.isNull)
        unit.constants ∧
      LegalNames (unit.constants.map ConstantUnit.name) := by
  obtain ⟨constants, hconstants, h⟩ := bind_eq_ok.mp h
  obtain ⟨comment, -, h⟩ := bind_eq_ok.mp h
  cases h
  refine ⟨rfl, ?_, ?_⟩
  · obtain ⟨new, hnew, hall⟩ := forall₂_of_foldlM id (Represents _)
      (fun _ _ _ => represents_addConstant) hconstants
    rw [id, id, List.nil_append] at hnew
    exact hnew ▸ hall
  · have hstart : LegalNames (([] : List ConstantUnit).map ConstantUnit.name) := .nil
    exact foldlM_keeps (P := fun constants => LegalNames (constants.map ConstantUnit.name))
      (fun _ hnames _ _ _ hadd => legalNames_addConstant hnames hadd) hstart hconstants

/-- A value as Java compares it, a string by its units. -/
inductive Wire
  | boolean (b : Bool)
  | number (n : ℤ)
  | string (units : List ℕ)
  deriving DecidableEq

def Wire.of? : Tree → Option Wire
  | .scalar (.bool b) => some (.boolean b)
  | .scalar (.int n) => some (.number n)
  | .scalar (.text s) => some (.string (codeUnits s))
  | _ => none

/-- The value of a literal of the type; a number counts also beyond the limits of its type. -/
def readLiteral? (type : ValueType) (source : String) : Option Wire :=
  match type with
  | .boolean =>
    if source = "true" then some (.boolean true)
    else if source = "false" then some (.boolean false)
    else none
  | .text =>
    match (translate source.toList).bind stringLiteral? with
    | some (value, []) => some (.string value)
    | _ => none
  | .integer => (spelled? .integer source).map .number
  | .long => (spelled? .long source).map .number
  | .double => none

/-- The constant that `fromValue` returns in the printed enum: the first one with the value. -/
def EnumUnit.fromValue? (u : EnumUnit) (wire : Wire) : Option ConstantUnit :=
  u.constants.find? fun c => readLiteral? u.valueType c.literal = some wire

/-- Values of one kind that is neither that of fractions nor that of lists and maps. -/
inductive Uniform : List Tree → Prop
  | texts (texts : List String) : Uniform (texts.map Tree.text)
  | integers (numbers : List ℤ) : Uniform (numbers.map fun n => .scalar (.int n))
  | booleans (flags : List Bool) : Uniform (flags.map fun b => .scalar (.bool b))

theorem Wire.of?_eq_some {value : Tree} {wire : Wire} (h : Wire.of? value = some wire) :
    (∃ b, value = .scalar (.bool b) ∧ wire = .boolean b) ∨
      (∃ n, value = .scalar (.int n) ∧ wire = .number n) ∨
      ∃ s, value = .scalar (.text s) ∧ wire = .string (codeUnits s) := by
  unfold Wire.of? at h
  split at h <;> cases h
  · exact Or.inl ⟨_, rfl, rfl⟩
  · exact Or.inr (Or.inl ⟨_, rfl, rfl⟩)
  · exact Or.inr (Or.inr ⟨_, rfl, rfl⟩)

theorem Wire.of?_injective {v w : Tree} {wire : Wire} (hv : Wire.of? v = some wire)
    (hw : Wire.of? w = some wire) : v = w := by
  obtain ⟨b, rfl, rfl⟩ | ⟨n, rfl, rfl⟩ | ⟨s, rfl, rfl⟩ := Wire.of?_eq_some hv
  · obtain ⟨c, rfl, h⟩ | ⟨m, -, h⟩ | ⟨t, -, h⟩ := Wire.of?_eq_some hw <;> cases h
    rfl
  · obtain ⟨c, -, h⟩ | ⟨m, rfl, h⟩ | ⟨t, -, h⟩ := Wire.of?_eq_some hw <;> cases h
    rfl
  · obtain ⟨c, -, h⟩ | ⟨m, -, h⟩ | ⟨t, rfl, h⟩ := Wire.of?_eq_some hw
    · cases h
    · cases h
    · rw [codeUnits_injective (Wire.string.inj h)]

theorem valueTypeOf_texts (texts : List String) : valueTypeOf (texts.map Tree.text) = .text := by
  cases texts <;> simp [valueTypeOf, isBool, isInteger, isNumber, Tree.text]

theorem valueTypeOf_integers {numbers : List ℤ} (hne : numbers ≠ []) :
    valueTypeOf (numbers.map fun n => .scalar (.int n)) =
      if ∃ n ∈ numbers, 2 ^ 31 ≤ n.natAbs then .long else .integer := by
  have hbool : (numbers.map fun n => Tree.scalar (.int n)).all isBool = false := by
    obtain ⟨n, hn⟩ := List.exists_mem_of_ne_nil _ hne
    simpa [isBool] using ⟨n, hn⟩
  have hall : (numbers.map fun n => Tree.scalar (.int n)).all isInteger = true := by
    simp [isInteger]
  have hwide : (numbers.map fun n => Tree.scalar (.int n)).any isWide = true ↔
      ∃ n ∈ numbers, 2 ^ 31 ≤ n.natAbs := by
    simp [isWide]
  rw [valueTypeOf, if_neg (by simpa using hne), if_neg (by simp [hbool]), if_pos hall]
  simp only [hwide]

theorem integer_or_long {numbers : List ℤ} (hne : numbers ≠ []) :
    valueTypeOf (numbers.map fun n => .scalar (.int n)) = .integer ∨
      valueTypeOf (numbers.map fun n => .scalar (.int n)) = .long := by
  rw [valueTypeOf_integers hne]
  split
  · exact Or.inr rfl
  · exact Or.inl rfl

theorem valueTypeOf_booleans {flags : List Bool} (hne : flags ≠ []) :
    valueTypeOf (flags.map fun b => .scalar (.bool b)) = .boolean := by
  simp [valueTypeOf, hne, isBool]

theorem literal_integer (n : ℤ) : literal .integer (.scalar (.int n)) =
    if hasNumeral n then .ok (toString n) else .error .tooLong := rfl

theorem literal_long (n : ℤ) : literal .long (.scalar (.int n)) =
    if hasNumeral n then .ok (toString n ++ "L") else .error .tooLong := by
  unfold literal Tree.written Tree.isWritable Scalar.isWritable
  dsimp only
  split <;> rfl

/-- An integer is spelled by its literal, if that has not too many digits. -/
theorem spelled?_of_literal {n : ℤ} (htype : type = .integer ∨ type = .long) {source : String}
    (h : literal type (.scalar (.int n)) = .ok source) : spelled? type source = some n := by
  rcases htype with rfl | rfl
  · rw [literal_integer] at h
    split at h <;> cases h
    exact spelled?_integer n
  · rw [literal_long] at h
    split at h <;> cases h
    exact spelled?_long n

/-- The value of a constant can be read from its literal. -/
def Shows (type : ValueType) (value : Tree) (c : ConstantUnit) : Prop :=
  ∃ wire, Wire.of? value = some wire ∧ readLiteral? type c.literal = some wire

theorem shows_of_represents {values : List Tree} (huniform : Uniform values) {value : Tree}
    (hvalue : value ∈ values) {c : ConstantUnit} (h : Represents (valueTypeOf values) value c) :
    Shows (valueTypeOf values) value c := by
  have hwritten := h.written
  cases huniform with
  | texts texts =>
    obtain ⟨s, -, rfl⟩ := List.mem_map.mp hvalue
    rw [valueTypeOf_texts] at hwritten ⊢
    have hsource : Text.escaped s = c.literal := Except.ok.inj hwritten
    refine ⟨.string (codeUnits s), rfl, ?_⟩
    rw [readLiteral?, ← hsource, (isLiteral_escaped s).reads]
  | integers numbers =>
    obtain ⟨n, hn, rfl⟩ := List.mem_map.mp hvalue
    refine ⟨.number n, rfl, ?_⟩
    have htype := integer_or_long (List.ne_nil_of_mem hn)
    have hspelled := spelled?_of_literal htype hwritten
    rcases htype with htype | htype <;>
    · rw [htype] at hspelled ⊢
      exact congrArg (Option.map Wire.number) hspelled
  | booleans flags =>
    obtain ⟨b, hb, rfl⟩ := List.mem_map.mp hvalue
    rw [valueTypeOf_booleans (List.ne_nil_of_mem hb)] at hwritten ⊢
    have hsource : (if b then "true" else "false") = c.literal := Except.ok.inj hwritten
    refine ⟨.boolean b, rfl, ?_⟩
    rw [← hsource]
    cases b <;> decide

theorem eq_of_shows {v w : Tree} {c : ConstantUnit} (hv : Shows type v c) {wire : Wire}
    (hwire : readLiteral? type c.literal = some wire) (hw : Wire.of? w = some wire) : v = w := by
  obtain ⟨own, hown, hread⟩ := hv
  cases hread.symm.trans hwire
  exact Wire.of?_injective hown hw

section Search

variable {values : List Tree} {constants : List ConstantUnit}
  (h : List.Forall₂ (Shows type) values constants) (hvalues : values.Nodup)
include h hvalues

theorem nodup_literals : (constants.map ConstantUnit.literal).Nodup := by
  induction h with
  | nil => exact List.nodup_nil
  | cons hshows hrest ih =>
    obtain ⟨hnew, hothers⟩ := List.nodup_cons.mp hvalues
    rw [List.map_cons, List.nodup_cons]
    refine ⟨fun hmem => ?_, ih hothers⟩
    obtain ⟨d, hd, hliteral⟩ := List.mem_map.mp hmem
    obtain ⟨w, hw, wire, hwire, hread⟩ := exists_left_of_forall₂ hrest hd
    obtain rfl := eq_of_shows hshows (hliteral ▸ hread) hwire
    exact hnew hw

/-- The first constant with a value is that of the value, since no other has it. -/
theorem find_own : List.Forall₂ (fun v c => ∃ wire, Wire.of? v = some wire ∧
    constants.find? (fun c => readLiteral? type c.literal = some wire) = some c)
    values constants := by
  induction h with
  | nil => exact .nil
  | @cons v c values constants hshows _ ih =>
    obtain ⟨hnew, hothers⟩ := List.nodup_cons.mp hvalues
    obtain ⟨wire, hwire, hread⟩ := hshows
    have hdistinct : ∀ w ∈ values, w ≠ v := fun w hw heq => hnew (heq ▸ hw)
    refine .cons ⟨wire, hwire, by rw [List.find?_cons_of_pos (by simpa using hread)]⟩ ?_
    refine ((List.forall₂_and_left _ _).mpr ⟨hdistinct, ih hothers⟩).imp ?_
    rintro w d ⟨hne, other, hother, hfind⟩
    refine ⟨other, hother, ?_⟩
    have hskip : readLiteral? type c.literal ≠ some other := fun heq =>
      hne (eq_of_shows ⟨wire, hwire, hread⟩ heq hother).symm
    rw [List.find?_cons_of_neg (by simpa using hskip), hfind]

end Search

/-- Whatever the values of an enum are, it has one constant for each that is not null, in their
order, and their names are legal and apart. Distinct values of one kind have distinct literals, and
`fromValue` finds the constant of each. -/
theorem constants_of_enumUnit {enum : EnumType} {unit : EnumUnit}
    (h : enumUnit settings enum = .ok unit) :
    List.Forall₂ (Represents unit.valueType) (enum.values.filter fun v => !v.isNull)
        unit.constants ∧
      LegalNames (unit.constants.map ConstantUnit.name) ∧
      (Uniform (enum.values.filter fun v => !v.isNull) →
        (enum.values.filter fun v => !v.isNull).Nodup →
        (unit.constants.map ConstantUnit.literal).Nodup ∧
          List.Forall₂ (fun v c => ∃ wire, Wire.of? v = some wire ∧
            unit.fromValue? wire = some c) (enum.values.filter fun v => !v.isNull)
            unit.constants) := by
  obtain ⟨htype, hrepresents, hnames⟩ := represents_enumUnit h
  refine ⟨hrepresents, hnames, fun huniform hdistinct => ?_⟩
  have hshows : List.Forall₂ (Shows unit.valueType) (enum.values.filter fun v => !v.isNull)
      unit.constants := by
    rw [htype] at hrepresents ⊢
    refine ((List.forall₂_and_left _ _).mpr ⟨fun v hv => hv, hrepresents⟩).imp ?_
    rintro v c ⟨hv, hc⟩
    exact shows_of_represents huniform hv hc
  exact ⟨nodup_literals hshows hdistinct, find_own hshows hdistinct⟩

/-- Texts that become one name, one of which looks like another with a number, and one without a
letter. -/
def oddEnum : EnumType :=
  { name := "Odd"
    values := [.text "a b", .null, .text "A-B", .text "a b 2", .text "", .text "\"1"] }

theorem constants_of_enumUnit_odd :
    ∃ unit, enumUnit {} oddEnum = .ok unit ∧
      unit.constants.map ConstantUnit.name = ["A_B", "A_B_2", "A_B_2_2", "EMPTY", "_1"] ∧
      LegalNames (unit.constants.map ConstantUnit.name) ∧
      (unit.constants.map ConstantUnit.literal).Nodup ∧
      List.Forall₂ (fun v c => ∃ wire, Wire.of? v = some wire ∧ unit.fromValue? wire = some c)
        (oddEnum.values.filter fun v => !v.isNull) unit.constants := by
  obtain ⟨unit, hunit, hnames⟩ := exists_of_map_toOption (o := enumUnit {} oddEnum)
    (f := fun unit => unit.constants.map ConstantUnit.name)
    (b := ["A_B", "A_B_2", "A_B_2_2", "EMPTY", "_1"]) (by decide +kernel)
  obtain ⟨-, hlegal, huniform⟩ := constants_of_enumUnit hunit
  have hdistinct : (["a b", "A-B", "a b 2", "", "\"1"].map Tree.text).Nodup :=
    List.Nodup.map (fun s t hst => by cases hst; rfl) (by decide)
  obtain ⟨hliterals, hfound⟩ := huniform (.texts ["a b", "A-B", "a b 2", "", "\"1"]) hdistinct
  exact ⟨unit, hunit, hnames, hlegal, hliterals, hfound⟩

end ApiContract.Source
