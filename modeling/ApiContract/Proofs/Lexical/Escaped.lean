import ApiContract.Proofs.Lexical.Literal

/-! # Escaped text is a literal

An escaped text is read back in both phases: the escapes of its units stand for the
units, and its short escapes are left to the literal.
-/
namespace ApiContract.Lexical

/-- The text is translated on its own, whatever follows it. -/
def Translates (text : List Char) (units : List Nat) : Prop :=
  ∀ rest, translate (text ++ rest) = (translate rest).map (units ++ ·)

theorem Translates.nil : Translates [] [] := by
  intro rest
  cases h : translate rest <;> simp [h]

theorem Translates.append {a b : List Char} {x y : List Nat} (ha : Translates a x)
    (hb : Translates b y) : Translates (a ++ b) (x ++ y) := by
  intro rest
  rw [List.append_assoc, ha, hb, Option.map_map]
  congr 1
  funext z
  exact (List.append_assoc x y z).symm

theorem Translates.flatMap {α : Type} {items : List α} {f : α → List Char} {g : α → List Nat}
    (h : ∀ a ∈ items, Translates (f a) (g a)) : Translates (items.flatMap f) (items.flatMap g) := by
  induction items with
  | nil => exact .nil
  | cons a rest ih =>
    exact (h a List.mem_cons_self).append (ih fun b hb => h b (List.mem_cons_of_mem _ hb))

theorem Translates.eq {text : List Char} {units : List Nat} (h : Translates text units) :
    translate text = some units := by
  have hall := h []
  rw [List.append_nil] at hall
  simpa [translate, read, readFrom, finish] using hall

theorem translates_of_read {text : List Char} {inputs : List Input}
    (h : ∀ rest, read (text ++ rest) = (read rest).map (inputs ++ ·)) :
    Translates text (inputs.map Input.unit) := by
  intro rest
  rw [translate, h, translate, Option.map_map, Option.map_map]
  congr 1
  funext x
  exact List.map_append

theorem units_of_plain (c : Char) : (plain c).map Input.unit = Text.units c := by
  simp [plain, Function.comp_def]

theorem translates_char {c : Char} (h : c ≠ '\\') : Translates [c] (Text.units c) := by
  rw [← units_of_plain]
  refine translates_of_read fun rest => ?_
  simp [read, readFrom, step, h]

theorem translates_of_plain {text : List Char} (h : ∀ c ∈ text, c ≠ '\\') :
    Translates text (text.flatMap Text.units) := by
  have hall := Translates.flatMap (f := fun c => [c]) fun c hc => translates_char (h c hc)
  rwa [List.flatMap_singleton'] at hall

theorem translates_slash {e : Char} (h : e ≠ 'u') :
    Translates ['\\', e] (backslash :: Text.units e) := by
  have hread : Translates ['\\', e] ((plain '\\' ++ plain e).map Input.unit) := by
    refine translates_of_read fun rest => ?_
    simp [read, readFrom, step, h, Function.comp_def]
  rwa [List.map_append, units_of_plain, units_of_plain] at hread

theorem hexValue_lowerHexDigit {n : Nat} (h : n < 16) :
    hexValue? (Text.lowerHexDigit n) = some n ∧ Text.lowerHexDigit n ≠ 'u' := by
  have hall : ∀ n < 16, hexValue? (Text.lowerHexDigit n) = some n ∧ Text.lowerHexDigit n ≠ 'u' := by
    decide
  exact hall n h

theorem read_escape {a b c d : Nat} (ha : a < 16) (hb : b < 16) (hc : c < 16) (hd : d < 16)
    (rest : List Char) :
    read (['\\', 'u'] ++ [a, b, c, d].map Text.lowerHexDigit ++ rest) =
      (read rest).map ([⟨16 * (16 * (16 * a + b) + c) + d, true⟩] ++ ·) := by
  simp [read, readFrom, step, hexValue_lowerHexDigit, ha, hb, hc, hd, Function.comp_def]

theorem translates_escapedUnit {n : Nat} (h : n < 0x10000) :
    Translates (Text.escapedUnit n) [n] := by
  have hmod : ∀ k, n / Nat.pow 16 k % 16 < 16 := fun k => Nat.mod_lt _ (by decide)
  have hdigits : Text.hexDigits 4 n =
      ([3, 2, 1, 0].map fun k => n / Nat.pow 16 k % 16).map Text.lowerHexDigit := rfl
  have hvalue : 16 * (16 * (16 * (n / Nat.pow 16 3 % 16) + n / Nat.pow 16 2 % 16) +
      n / Nat.pow 16 1 % 16) + n / Nat.pow 16 0 % 16 = n := by
    simp only [Nat.pow_eq]
    omega
  have hread : ∀ rest, read (Text.escapedUnit n ++ rest) = (read rest).map ([⟨n, true⟩] ++ ·) := by
    intro rest
    have hread := read_escape (hmod 3) (hmod 2) (hmod 1) (hmod 0) rest
    rwa [hvalue] at hread
  exact translates_of_read hread

theorem units_lt (c : Char) : ∀ u ∈ Text.units c, u < 0x10000 := by
  have hc : c.toNat < 0x110000 := by
    rcases c.valid with h | h
    · exact Nat.lt_trans h (by decide)
    · exact h.2
  intro u hu
  unfold Text.units at hu
  split_ifs at hu with hsmall
  · cases List.mem_singleton.mp hu
    exact hsmall
  · simp only [List.mem_cons, List.not_mem_nil, or_false] at hu
    omega

theorem translates_escapedChar (c : Char) : Translates (Text.escapedChar c) (translatedChar c) := by
  unfold Text.escapedChar translatedChar
  cases hc : Text.shortEscape? c with
  | some e =>
    have he : e ≠ 'u' ∧ Text.units e = [e.toNat] := by
      unfold Text.shortEscape? at hc
      split_ifs at hc <;> cases hc <;> decide
    have hread := translates_slash he.1
    rwa [he.2] at hread
  | none =>
    dsimp only
    split_ifs with hprintable
    · refine translates_char fun hslash => ?_
      subst hslash
      cases hc
    · have hread := Translates.flatMap (g := fun u => [u]) fun u hu =>
        translates_escapedUnit (units_lt c u hu)
      rwa [List.flatMap_singleton'] at hread

theorem translates_escaped (s : String) :
    Translates (Text.escaped s).toList (translatedText s) := by
  have hquote : Translates ['\x22'] [quote] := translates_char (by decide)
  have hbody := Translates.flatMap fun c (_ : c ∈ s.toList) => translates_escapedChar c
  rw [Text.escaped, String.toList_ofList]
  exact (hquote.append hbody).append hquote

/-- Printable characters of ASCII, among which there are no line terminators. -/
def IsShown (c : Char) : Prop := 0x20 ≤ c.toNat ∧ c.toNat ≤ 0x7e

instance (c : Char) : Decidable (IsShown c) := inferInstanceAs (Decidable (_ ∧ _))

theorem IsShown.oneLine {c : Char} (h : IsShown c) : c ≠ '\n' ∧ c ≠ '\r' := by
  constructor <;> rintro rfl <;> revert h <;> decide

theorem isShown_lowerHexDigit {n : Nat} (h : n < 16) : IsShown (Text.lowerHexDigit n) := by
  have hall : ∀ n < 16, IsShown (Text.lowerHexDigit n) := by decide
  exact hall n h

theorem isShown_escapedUnit (n : Nat) : ∀ c ∈ Text.escapedUnit n, IsShown c := by
  intro c hc
  rcases List.mem_append.mp hc with hc | hc
  · have hstart : ∀ c ∈ ['\\', 'u'], IsShown c := by simp [IsShown]
    exact hstart c hc
  · obtain ⟨i, -, rfl⟩ := List.mem_map.mp hc
    exact isShown_lowerHexDigit (Nat.mod_lt _ (by decide))

theorem isShown_escapedChar (d : Char) : ∀ c ∈ Text.escapedChar d, IsShown c := by
  unfold Text.escapedChar
  cases hd : Text.shortEscape? d with
  | some e =>
    unfold Text.shortEscape? at hd
    dsimp only
    split_ifs at hd <;> cases hd <;> simp [IsShown]
  | none =>
    dsimp only
    intro c hc
    split_ifs at hc with hprintable
    · cases List.mem_singleton.mp hc
      exact hprintable
    · obtain ⟨u, -, hc⟩ := List.mem_flatMap.mp hc
      exact isShown_escapedUnit u c hc

theorem isShown_escaped (s : String) : ∀ c ∈ (Text.escaped s).toList, IsShown c := by
  intro c hc
  have hquote : IsShown '\x22' := by decide
  rw [Text.escaped, String.toList_ofList, Text.escapedChars, List.cons_append] at hc
  rcases List.mem_cons.mp hc with rfl | hc
  · exact hquote
  rcases List.mem_append.mp hc with hc | hc
  · obtain ⟨d, -, hc⟩ := List.mem_flatMap.mp hc
    exact isShown_escapedChar d c hc
  · rw [List.mem_singleton.mp hc]
    exact hquote

theorem isLiteral_escaped (s : String) : IsLiteral (Text.escaped s) s := by
  have hend : ([] : List Nat).head? ≠ some quote := by decide
  have hread := stringLiteral_translated s hend
  rw [List.append_nil] at hread
  refine ⟨fun c hc => (isShown_escaped s c hc).oneLine, ?_⟩
  rw [(translates_escaped s).eq, Option.bind_some, hread]

/-- A character that is neither a line terminator nor the start of an escape, of a
literal or of a comment. -/
def IsQuiet (c : Char) : Prop :=
  c ∉ ['\n', '\r', '\\', '\x22', '\x27', '/']

instance (c : Char) : Decidable (IsQuiet c) := inferInstanceAs (Decidable (_ ∉ _))

/-- A quiet text of at least one character, which ends whatever literal it follows. -/
def IsGap (text : List Char) : Prop := text ≠ [] ∧ ∀ c ∈ text, IsQuiet c

instance (text : List Char) : Decidable (IsGap text) :=
  decidable_of_iff (text ≠ [] ∧ (text.all fun c => decide (IsQuiet c)) = true) (by simp [IsGap])

theorem IsQuiet.units {c : Char} (h : IsQuiet c) :
    ∀ u ∈ Text.units c, u ≠ quote ∧ u ≠ 0x27 ∧ u ≠ 0x2f := by
  simp only [IsQuiet, List.mem_cons, List.not_mem_nil, or_false, not_or] at h
  obtain ⟨-, -, -, hquote, hapostrophe, hslash⟩ := h
  intro u hu
  exact ⟨ne_of_mem_units (d := '\x22') (by decide) hquote hu,
    ne_of_mem_units (d := '\x27') (by decide) hapostrophe hu,
    ne_of_mem_units (d := '/') (by decide) hslash hu⟩

theorem IsQuiet.ne_slash {c : Char} (h : IsQuiet c) : c ≠ '\\' := by
  rintro rfl
  exact h (by decide)

theorem IsGap.translates {text : List Char} (h : IsGap text) :
    Translates text (text.flatMap Text.units) :=
  translates_of_plain fun c hc => (h.2 c hc).ne_slash

theorem literals_append {us : List Nat} (h : ∀ u ∈ us, u ≠ quote ∧ u ≠ 0x27 ∧ u ≠ 0x2f)
    (rest : List Nat) : literals (us ++ rest) = literals rest := by
  induction us with
  | nil => rfl
  | cons u us ih =>
    obtain ⟨hquote, hapostrophe, hslash⟩ := h u List.mem_cons_self
    rw [List.cons_append, literals, if_neg hquote, if_neg (not_or.mpr ⟨hapostrophe, hslash⟩)]
    exact ih fun v hv => h v (List.mem_cons_of_mem _ hv)

theorem IsGap.quiet_units {text : List Char} (h : IsGap text) :
    ∀ u ∈ text.flatMap Text.units, u ≠ quote ∧ u ≠ 0x27 ∧ u ≠ 0x2f := by
  intro u hu
  obtain ⟨c, hc, hu⟩ := List.mem_flatMap.mp hu
  exact (h.2 c hc).units u hu

theorem IsGap.head_ne_quote {text : List Char} (h : IsGap text) (rest : List Nat) :
    (text.flatMap Text.units ++ rest).head? ≠ some quote := by
  obtain ⟨hne, hquiet⟩ := h
  cases text with
  | nil => exact absurd rfl hne
  | cons c text =>
    have hc := (hquiet c List.mem_cons_self).units
    rw [List.flatMap_cons]
    unfold Text.units at hc ⊢
    split_ifs at hc ⊢ <;> simpa using (hc _ List.mem_cons_self).1

/-- The source is on one line, and before any text that does not go on with a quote
its string literals are those with the values. -/
structure Carries (source : List Char) (values : List String) : Prop where
  oneLine : ∀ c ∈ source, c ≠ '\n' ∧ c ≠ '\r'
  reads : ∃ units, Translates source units ∧ ∀ rest, rest.head? ≠ some quote →
    literals (units ++ rest) = (literals rest).map (values.map codeUnits ++ ·)

theorem Carries.nil : Carries [] [] := by
  refine ⟨fun c hc => absurd hc List.not_mem_nil, [], .nil, fun rest _ => ?_⟩
  cases h : literals rest <;> simp [h]

theorem Carries.gap_append {gap source : List Char} {values : List String} (hgap : IsGap gap)
    (h : Carries source values) : Carries (gap ++ source) values := by
  obtain ⟨units, htranslates, hreads⟩ := h.reads
  refine ⟨fun c hc => ?_, _, hgap.translates.append htranslates, fun rest hrest => ?_⟩
  · rcases List.mem_append.mp hc with hc | hc
    · constructor <;> rintro rfl <;> exact hgap.2 _ hc (by decide)
    · exact h.oneLine c hc
  · rw [List.append_assoc, literals_append hgap.quiet_units, hreads rest hrest]

theorem Carries.literal_gap_append (value : String) {gap source : List Char}
    {values : List String} (hgap : IsGap gap) (h : Carries source values) :
    Carries ((Text.escaped value).toList ++ (gap ++ source)) (value :: values) := by
  have hsource := Carries.gap_append hgap h
  obtain ⟨units, htranslates, hreads⟩ := h.reads
  refine ⟨fun c hc => ?_, _,
    (translates_escaped value).append (hgap.translates.append htranslates),
    fun rest hrest => ?_⟩
  · rcases List.mem_append.mp hc with hc | hc
    · exact (isShown_escaped value c hc).oneLine
    · exact hsource.oneLine c hc
  · rw [List.append_assoc, List.append_assoc, literals_translated value (hgap.head_ne_quote _),
      literals_append hgap.quiet_units, hreads rest hrest]
    cases literals rest <;> rfl

/-- Literals between commas and before a gap. -/
theorem Carries.list_gap_append (values : List String) {gap source : List Char}
    {more : List String} (hgap : IsGap gap) (h : Carries source more) :
    Carries ((", ".intercalate (values.map Text.escaped)).toList ++ (gap ++ source))
      (values ++ more) := by
  induction values with
  | nil => simpa using Carries.gap_append hgap h
  | cons value rest ih =>
    cases rest with
    | nil => simpa using Carries.literal_gap_append value hgap h
    | cons next rest =>
      have hcomma : IsGap ", ".toList := by decide
      have hall := Carries.literal_gap_append value hcomma ih
      simpa [List.append_assoc] using hall

theorem Carries.hasLiterals {source : String} {values : List String}
    (h : Carries source.toList values) : HasLiterals source values := by
  obtain ⟨units, htranslates, hreads⟩ := h.reads
  have hend := hreads [] (by decide)
  rw [List.append_nil] at hend
  refine ⟨h.oneLine, ?_⟩
  rw [htranslates.eq, Option.bind_some, hend, literals]
  simp

end ApiContract.Lexical
