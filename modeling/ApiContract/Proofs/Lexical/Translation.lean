import Mathlib.Tactic.SplitIfs
import ApiContract.Text.Escaped

/-! # Unicode escapes

The first phase of reading Java source replaces its Unicode escapes, in comments
and literals as anywhere else. A backslash may start an escape only after an even
number of backslashes right before it, and then a `u` behind it does start one:
any number of `u` and four hexadecimal digits must follow.
-/
namespace ApiContract.Lexical

/-- One UTF-16 unit of translated source. -/
structure Input where
  unit : Nat
  escaped : Bool
  deriving DecidableEq, Repr

/-- Where the translation stands: outside of an escape, behind a backslash that may
start one, behind its `u`, and behind some of its digits. -/
inductive State
  | ready
  | slash
  | mark
  | digits (count value : Nat)
  deriving DecidableEq, Repr

def hexValue? (c : Char) : Option Nat :=
  if 0x30 ≤ c.toNat ∧ c.toNat ≤ 0x39 then some (c.toNat - 0x30)
  else if 0x41 ≤ c.toNat ∧ c.toNat ≤ 0x46 then some (c.toNat - 0x37)
  else if 0x61 ≤ c.toNat ∧ c.toNat ≤ 0x66 then some (c.toNat - 0x57)
  else none

def plain (c : Char) : List Input := (Text.units c).map fun n => ⟨n, false⟩

/-- The next state and the units that are complete with this character; none when an
escape is malformed. -/
def step : State → Char → Option (State × List Input)
  | .ready, c => some (if c = '\\' then (.slash, []) else (.ready, plain c))
  | .slash, c => some (if c = 'u' then (.mark, []) else (.ready, plain '\\' ++ plain c))
  | .mark, c =>
    if c = 'u' then some (.mark, [])
    else (hexValue? c).map fun v => (.digits 1 v, [])
  | .digits count value, c =>
    (hexValue? c).map fun v =>
      if count = 3 then (.ready, [⟨16 * value + v, true⟩])
      else (.digits (count + 1) (16 * value + v), [])

/-- What is complete when the source ends in a state. -/
def finish : State → Option (List Input)
  | .ready => some []
  | .slash => some (plain '\\')
  | _ => none

def readFrom : State → List Char → Option (List Input)
  | s, [] => finish s
  | s, c :: rest =>
    match step s c with
    | some (t, now) => (readFrom t rest).map (now ++ ·)
    | none => none

def read (text : List Char) : Option (List Input) := readFrom .ready text

def translate (text : List Char) : Option (List Nat) := (read text).map (·.map Input.unit)

/-- A unit below the surrogates is the one unit of its character. -/
theorem eq_of_mem_units {c d : Char} (hd : d.toNat < 0xd800) (h : d.toNat ∈ Text.units c) :
    c = d := by
  unfold Text.units at h
  split_ifs at h with hsmall
  · exact Char.toNat_inj.mp (List.mem_singleton.mp h).symm
  · simp only [List.mem_cons, List.not_mem_nil, or_false] at h
    omega

theorem ne_of_mem_units {c d : Char} (hd : d.toNat < 0xd800) (hne : c ≠ d) {u : Nat}
    (hu : u ∈ Text.units c) : u ≠ d.toNat := by
  rintro rfl
  exact hne (eq_of_mem_units hd hu)

theorem units_ne_nil (c : Char) : Text.units c ≠ [] := by
  unfold Text.units
  split_ifs <;> simp

/-- The first character of a text can be told from its units: a pair of them is no character of
its own. -/
theorem units_append_inj {c d : Char} {rest rest' : List Nat}
    (h : Text.units c ++ rest = Text.units d ++ rest') : c = d ∧ rest = rest' := by
  have hvalid : ∀ e : Char, e.toNat < 0xd800 ∨ 0xdfff < e.toNat ∧ e.toNat < 0x110000 :=
    fun e => e.valid
  have hc := hvalid c
  have hd := hvalid d
  have hcode : c.toNat = d.toNat → c = d := Char.toNat_inj.mp
  unfold Text.units at h
  split_ifs at h with hsmall hsmall' hsmall' <;>
    simp only [List.cons_append, List.nil_append, List.cons.injEq] at h
  · exact ⟨hcode h.1, h.2⟩
  · omega
  · omega
  · exact ⟨hcode (by omega), h.2.2⟩

/-- A character that belongs to no escape and does not come before one. -/
def IsLoose (c : Char) : Prop := c ≠ '\\' ∧ c ≠ 'u' ∧ hexValue? c = none

instance (c : Char) : Decidable (IsLoose c) := inferInstanceAs (Decidable (_ ∧ _ ∧ _))

/-- The texts on either side of a loose character are translated on their own. -/
theorem readFrom_append {c : Char} (hc : IsLoose c) (s : State) (a b : List Char) :
    readFrom s (a ++ c :: b) = (readFrom s a).bind fun x =>
      (read b).map fun y => x ++ plain c ++ y := by
  induction a generalizing s with
  | nil =>
    obtain ⟨hslash, hu, hhex⟩ := hc
    cases s <;> simp [readFrom, step, finish, read, hslash, hu, hhex]
  | cons d rest ih =>
    simp only [List.cons_append, readFrom]
    cases step s d with
    | none => rfl
    | some p =>
      simp only [ih]
      cases readFrom p.1 rest with
      | none => rfl
      | some x => cases read b <;> simp

theorem read_append {c : Char} (hc : IsLoose c) (a b : List Char) :
    read (a ++ c :: b) = (read a).bind fun x => (read b).map fun y => x ++ plain c ++ y :=
  readFrom_append hc .ready a b

/-- A text without a backslash has no escape. -/
theorem read_of_plain {text : List Char} (h : ∀ c ∈ text, c ≠ '\\') :
    read text = some (text.flatMap plain) := by
  unfold read
  induction text with
  | nil => rfl
  | cons c rest ih =>
    have hc : c ≠ '\\' := h c List.mem_cons_self
    simp [readFrom, step, hc, ih fun d hd => h d (List.mem_cons_of_mem _ hd)]

end ApiContract.Lexical
