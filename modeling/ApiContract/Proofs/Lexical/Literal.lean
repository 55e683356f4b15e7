import Mathlib.Tactic.SplitIfs
import ApiContract.Proofs.Lexical.Translation

/-! # String literals

The second phase of reading Java source works on translated units. A string literal
ends at the first quote that no escape sequence takes, and it ends on its line. Three
quotes start a text block, which is not one.
-/
namespace ApiContract.Lexical

def quote : Nat := 0x22

def backslash : Nat := 0x5c

/-- The escape sequences of one letter with the units that they stand for. -/
def letterEscapes : List (Nat × Nat) := [
  (0x62, 0x08), (0x73, 0x20), (0x74, 0x09), (0x6e, 0x0a), (0x66, 0x0c), (0x72, 0x0d),
  (0x22, 0x22), (0x27, 0x27), (0x5c, 0x5c)]

def isOctal (u : Nat) : Bool := 0x30 ≤ u && u ≤ 0x37

/-- The width and the value of an octal escape, which is at most 377. -/
def octal? (units : List Nat) : Option (Nat × Nat) :=
  match (units.takeWhile isOctal).map (· - 0x30) with
  | [] => none
  | [a] => some (1, a)
  | [a, b] => some (2, 8 * a + b)
  | a :: b :: c :: _ => if a ≤ 3 then some (3, 64 * a + 8 * b + c) else some (2, 8 * a + b)

/-- The width and the value of the escape sequence whose backslash has just been read. -/
def sequence? (units : List Nat) : Option (Nat × Nat) :=
  match units.head?.bind fun u => letterEscapes.lookup u with
  | some value => some (1, value)
  | none => octal? units

/-- The value of a literal whose opening quote has just been read, and what is behind
the literal; the next `skip` units were taken already. -/
def literalBody : Nat → List Nat → Option (List Nat × List Nat)
  | _, [] => none
  | skip + 1, _ :: rest => literalBody skip rest
  | 0, u :: rest =>
    if u = quote then some ([], rest)
    else if u = 0x0a ∨ u = 0x0d then none
    else if u = backslash then
      match sequence? rest with
      | some (width, value) => (literalBody width rest).map fun b => (value :: b.1, b.2)
      | none => none
    else (literalBody 0 rest).map fun b => (u :: b.1, b.2)

def opensBlock (rest : List Nat) : Bool := [quote, quote].isPrefixOf rest

/-- The value of the string literal that a text starts with, and what is behind it. -/
def stringLiteral? : List Nat → Option (List Nat × List Nat)
  | u :: rest => if u = quote ∧ !opensBlock rest then literalBody 0 rest else none
  | [] => none

theorem exists_of_map_cons {o : Option (List Nat × List Nat)} {u : Nat} {value rest : List Nat}
    (h : o.map (fun b => (u :: b.1, b.2)) = some (value, rest)) : ∃ v, o = some (v, rest) := by
  obtain ⟨b, hb, hrest⟩ := Option.map_eq_some_iff.mp h
  cases hrest
  exact ⟨b.1, hb⟩

theorem length_of_literalBody {skip : Nat} {units value rest : List Nat}
    (h : literalBody skip units = some (value, rest)) : rest.length < units.length := by
  induction units generalizing skip value with
  | nil => cases skip <;> cases h
  | cons u units ih =>
    cases skip with
    | succ skip => exact Nat.lt_succ_of_lt (ih h)
    | zero =>
      rw [literalBody] at h
      split_ifs at h with hquote hbreak hslash
      · cases h
        exact Nat.lt_succ_self _
      · split at h
        · obtain ⟨v, hv⟩ := exists_of_map_cons h
          exact Nat.lt_succ_of_lt (ih hv)
        · cases h
      · obtain ⟨v, hv⟩ := exists_of_map_cons h
        exact Nat.lt_succ_of_lt (ih hv)

theorem length_of_stringLiteral {units value rest : List Nat}
    (h : stringLiteral? units = some (value, rest)) : rest.length < units.length := by
  cases units with
  | nil => cases h
  | cons u units =>
    rw [stringLiteral?] at h
    split at h
    · exact Nat.lt_succ_of_lt (length_of_literalBody h)
    · cases h

/-- The values of all string literals of a text without character literals, comments
and divisions. -/
def literals : List Nat → Option (List (List Nat))
  | [] => some []
  | u :: rest =>
    if u = quote then
      match _h : stringLiteral? (u :: rest) with
      | some (value, more) => (literals more).map (value :: ·)
      | none => none
    else if u = 0x27 ∨ u = 0x2f then none
    else literals rest
termination_by units => units.length
decreasing_by
  · exact length_of_stringLiteral ‹_›
  · exact Nat.lt_succ_self _

/-- The UTF-16 units of a text, which are what a string is in Java. -/
def codeUnits (text : String) : List Nat := text.toList.flatMap Text.units

theorem codeUnits_injective {s t : String} (h : codeUnits s = codeUnits t) : s = t := by
  have hchars : ∀ a b : List Char, a.flatMap Text.units = b.flatMap Text.units → a = b := by
    intro a
    induction a with
    | nil =>
      intro b hb
      cases b with
      | nil => rfl
      | cons d b => exact absurd (List.append_eq_nil_iff.mp hb.symm).1 (units_ne_nil d)
    | cons c a ih =>
      intro b hb
      cases b with
      | nil => exact absurd (List.append_eq_nil_iff.mp hb).1 (units_ne_nil c)
      | cons d b =>
        obtain ⟨hfirst, hrest⟩ := units_append_inj hb
        rw [hfirst, ih b hrest]
  exact String.toList_inj.mp (hchars _ _ h)

/-- The source is one string literal on one line and has the value. -/
structure IsLiteral (source value : String) : Prop where
  oneLine : ∀ c ∈ source.toList, c ≠ '\n' ∧ c ≠ '\r'
  reads : (translate source.toList).bind stringLiteral? = some (codeUnits value, [])

/-- The source is on one line, and its string literals are those with the values. -/
structure HasLiterals (source : String) (values : List String) : Prop where
  oneLine : ∀ c ∈ source.toList, c ≠ '\n' ∧ c ≠ '\r'
  reads : (translate source.toList).bind literals = some (values.map codeUnits)

/-- The units of one character of an escaped text after the first phase. -/
def translatedChar (c : Char) : List Nat :=
  match Text.shortEscape? c with
  | some e => [backslash, e.toNat]
  | none => Text.units c

def translatedText (text : String) : List Nat :=
  quote :: text.toList.flatMap translatedChar ++ [quote]

/-- The short escapes are escape sequences of a literal. -/
theorem sequence_of_shortEscape {c e : Char} (h : Text.shortEscape? c = some e) (rest : List Nat) :
    sequence? (e.toNat :: rest) = some (1, c.toNat) ∧ Text.units c = [c.toNat] := by
  unfold Text.shortEscape? at h
  split_ifs at h with h1 h2 h3 h4 h5 h6 h7 <;> cases h <;> subst_vars <;> exact ⟨rfl, rfl⟩

/-- A unit that is a part of the value of a literal. -/
def IsOrdinary (u : Nat) : Prop := u ≠ quote ∧ u ≠ 0x0a ∧ u ≠ 0x0d ∧ u ≠ backslash

theorem ordinary_units {c : Char} (h : Text.shortEscape? c = none) :
    ∀ u ∈ Text.units c, IsOrdinary u := by
  unfold Text.shortEscape? at h
  split_ifs at h with hquote hslash hfeed hreturn
  intro u hu
  exact ⟨ne_of_mem_units (d := '\x22') (by decide) hquote hu,
    ne_of_mem_units (d := '\n') (by decide) hfeed hu,
    ne_of_mem_units (d := '\r') (by decide) hreturn hu,
    ne_of_mem_units (d := '\\') (by decide) hslash hu⟩

theorem literalBody_append {us : List Nat} (h : ∀ u ∈ us, IsOrdinary u) (rest : List Nat) :
    literalBody 0 (us ++ rest) = (literalBody 0 rest).map fun b => (us ++ b.1, b.2) := by
  induction us with
  | nil => cases hb : literalBody 0 rest <;> simp [hb]
  | cons u us ih =>
    obtain ⟨hquote, hfeed, hreturn, hslash⟩ := h u List.mem_cons_self
    simp only [List.cons_append, literalBody, hquote, hfeed, hreturn, hslash, or_self, if_false,
      ih fun v hv => h v (List.mem_cons_of_mem _ hv), Option.map_map]
    rfl

theorem literalBody_translatedChar (c : Char) (rest : List Nat) :
    literalBody 0 (translatedChar c ++ rest) =
      (literalBody 0 rest).map fun b => (Text.units c ++ b.1, b.2) := by
  unfold translatedChar
  cases hc : Text.shortEscape? c with
  | none => exact literalBody_append (ordinary_units hc) rest
  | some e =>
    obtain ⟨hsequence, hunits⟩ := sequence_of_shortEscape hc rest
    rw [hunits]
    simp [literalBody, hsequence, backslash, quote]

theorem literalBody_translated (text : List Char) (rest : List Nat) :
    literalBody 0 (text.flatMap translatedChar ++ quote :: rest) =
      some (text.flatMap Text.units, rest) := by
  induction text with
  | nil => rfl
  | cons c text ih =>
    rw [List.flatMap_cons, List.append_assoc, literalBody_translatedChar, ih]
    rfl

/-- No quote of a text comes right behind the opening one. -/
theorem opensBlock_translated (text : String) {rest : List Nat} (hrest : rest.head? ≠ some quote) :
    opensBlock (text.toList.flatMap translatedChar ++ quote :: rest) = false := by
  cases htext : text.toList with
  | nil =>
    cases rest with
    | nil => rfl
    | cons u rest =>
      have hu : u ≠ quote := fun he => hrest (congrArg some he)
      simp [opensBlock, List.isPrefixOf, Ne.symm hu]
  | cons c text =>
    have hhead : ∃ u us, translatedChar c = u :: us ∧ u ≠ quote := by
      unfold translatedChar
      cases hc : Text.shortEscape? c with
      | some e => exact ⟨backslash, _, rfl, by decide⟩
      | none =>
        cases hunits : Text.units c with
        | nil => exact absurd hunits (units_ne_nil c)
        | cons u us =>
          exact ⟨u, us, rfl, (ordinary_units hc u (hunits ▸ List.mem_cons_self)).1⟩
    obtain ⟨u, us, hchar, hu⟩ := hhead
    simp [opensBlock, hchar, List.isPrefixOf, Ne.symm hu]

theorem stringLiteral_translated (text : String) {rest : List Nat}
    (hrest : rest.head? ≠ some quote) :
    stringLiteral? (translatedText text ++ rest) = some (codeUnits text, rest) := by
  have hblock := opensBlock_translated text hrest
  simp [translatedText, stringLiteral?, hblock, literalBody_translated, codeUnits]

theorem literals_translated (text : String) {rest : List Nat} (hrest : rest.head? ≠ some quote) :
    literals (translatedText text ++ rest) = (literals rest).map (codeUnits text :: ·) := by
  have hread := stringLiteral_translated text hrest
  unfold translatedText at hread ⊢
  rw [List.cons_append, List.cons_append] at hread ⊢
  rw [literals, if_pos rfl]
  split
  · next value more h =>
    rw [hread] at h
    cases h
    rfl
  · next h => rw [hread] at h; cases h

end ApiContract.Lexical
