import Mathlib.Data.List.Chain
import Mathlib.Tactic.SplitIfs
import ApiContract.Proofs.Doc.Markup
import ApiContract.Proofs.Lexical.Translation
import ApiContract.Source.Print

/-! # Comments in translated source

A comment ends where the translated source has a star and a slash, so an escape can
end it and a malformed one can break the source. Descriptions are escaped by their own
characters only: what keeps a comment whole is that the description has no such escape.
-/
namespace ApiContract.Lexical

/-- The two units end a comment. -/
def IsEnd (a b : Input) : Prop := a.unit = 0x2a ∧ b.unit = 0x2f

instance (a b : Input) : Decidable (IsEnd a b) := inferInstanceAs (Decidable (_ ∧ _))

/-- The escapes of the text are well formed, and units next to each other are related. -/
def Reads (R : Input → Input → Prop) (text : List Char) : Prop :=
  ∃ inputs, read text = some inputs ∧ inputs.IsChain R

/-- No escape of the text is malformed or a part of an end of a comment. -/
def Harmless (text : List Char) : Prop :=
  Reads (fun a b => IsEnd a b → a.escaped = false ∧ b.escaped = false) text

/-- The text is translated, and then it does not end a comment. -/
def Contained (text : List Char) : Prop := Reads (fun a b => ¬IsEnd a b) text

/-- A loose character that is not a part of an end of a comment. -/
def IsNeutral (c : Char) : Prop := IsLoose c ∧ c ≠ '*' ∧ c ≠ '/'

instance (c : Char) : Decidable (IsNeutral c) := inferInstanceAs (Decidable (_ ∧ _))

theorem mem_plain {c : Char} {a : Input} (h : a ∈ plain c) :
    a.escaped = false ∧ a.unit ∈ Text.units c := by
  obtain ⟨u, hu, rfl⟩ := List.mem_map.mp h
  exact ⟨rfl, hu⟩

theorem plain_ne_nil (c : Char) : plain c ≠ [] :=
  fun h => units_ne_nil c (List.map_eq_nil_iff.mp h)

theorem not_isEnd_of_neutral {c : Char} (hc : IsNeutral c) {a : Input} (ha : a ∈ plain c)
    (b : Input) : ¬IsEnd a b ∧ ¬IsEnd b a := by
  obtain ⟨-, hunit⟩ := mem_plain ha
  refine ⟨fun h => hc.2.1 ?_, fun h => hc.2.2 ?_⟩
  · rw [h.1] at hunit
    exact eq_of_mem_units (d := '*') (by decide) hunit
  · rw [h.2] at hunit
    exact eq_of_mem_units (d := '/') (by decide) hunit

section Relation

variable {R : Input → Input → Prop}

theorem Reads.nil : Reads R [] := ⟨[], rfl, .nil⟩

theorem reads_of_plain {text : List Char} (htext : ∀ c ∈ text, c ≠ '\\')
    (h : (text.flatMap plain).IsChain R) : Reads R text :=
  ⟨_, read_of_plain htext, h⟩

theorem Reads.cut {c : Char} (hc : IsLoose c) {a b : List Char} (h : Reads R (a ++ c :: b)) :
    Reads R a ∧ Reads R b := by
  obtain ⟨inputs, hread, hchain⟩ := h
  rw [read_append hc] at hread
  obtain ⟨x, hx, hread⟩ := Option.bind_eq_some_iff.mp hread
  obtain ⟨y, hy, rfl⟩ := Option.map_eq_some_iff.mp hread
  obtain ⟨hstart, hend, -⟩ := List.isChain_append.mp hchain
  exact ⟨⟨x, hx, (List.isChain_append.mp hstart).1⟩, ⟨y, hy, hend⟩⟩

variable (hR : ∀ a b, ¬IsEnd a b → R a b)
include hR

theorem Reads.append {c : Char} (hc : IsNeutral c) {a b : List Char} (ha : Reads R a)
    (hb : Reads R b) : Reads R (a ++ c :: b) := by
  obtain ⟨x, hx, hxs⟩ := ha
  obtain ⟨y, hy, hys⟩ := hb
  have hplain : (plain c).IsChain R := List.Pairwise.isChain
    (List.pairwise_of_forall_mem_list fun u hu v _ => hR u v (not_isEnd_of_neutral hc hu v).1)
  refine ⟨x ++ plain c ++ y, by rw [read_append hc.1, hx, hy]; rfl, ?_⟩
  refine List.isChain_append.mpr ⟨List.isChain_append.mpr ⟨hxs, hplain, ?_⟩, hys, ?_⟩
  · intro u _ v hv
    exact hR u v (not_isEnd_of_neutral hc (List.mem_of_head? hv) u).2
  · intro u hu v _
    rw [List.getLast?_append_of_ne_nil _ (plain_ne_nil c)] at hu
    exact hR u v (not_isEnd_of_neutral hc (List.mem_of_getLast? hu) v).1

/-- Text without a backslash may stand between two neutral characters. -/
theorem Reads.between {c d : Char} (hc : IsNeutral c) (hd : IsNeutral d) {mid : List Char}
    (hmid : Reads R mid) {a b : List Char} (ha : Reads R a) (hb : Reads R b) :
    Reads R (a ++ (c :: mid ++ d :: b)) :=
  Reads.append hR hc ha (Reads.append hR hd hmid hb)

end Relation

theorem isNeutral_of_isGap {c : Char} (h : Doc.isGap c = true) : IsNeutral c := by
  have hcode : c.toNat ≤ 0x20 ∨ c.toNat = 0x60 ∨ 0x85 ≤ c.toNat := by
    have hranges : ∀ r ∈ Text.blankRanges, r.2 ≤ 0x20 ∨ 0x85 ≤ r.1 := by decide
    simp only [Doc.isGap, Bool.or_eq_true, Doc.isTick, beq_iff_eq] at h
    rcases h with (h | rfl) | rfl
    · obtain ⟨r, hr, hlow, hhigh⟩ := (Text.Ranges.has_iff _ c).mp h
      rcases hranges r hr with hr | hr
      · exact .inl (hhigh.trans hr)
      · exact .inr (.inr (hr.trans hlow))
    · exact .inr (.inl rfl)
    · exact .inl (by decide)
  have hhex : hexValue? c = none := by
    unfold hexValue?
    split_ifs
    all_goals first | omega | rfl
  have hne : ∀ d : Char, 0x20 < d.toNat → d.toNat ≠ 0x60 → d.toNat < 0x85 → c ≠ d := by
    rintro d h1 h2 h3 rfl
    omega
  exact ⟨⟨hne _ (by decide) (by decide) (by decide),
      hne _ (by decide) (by decide) (by decide), hhex⟩,
    hne _ (by decide) (by decide) (by decide), hne _ (by decide) (by decide) (by decide)⟩

theorem splits_reads {R : Input → Input → Prop} (hR : ∀ a b, ¬IsEnd a b → R a b) :
    Text.Splits (Reads R) Doc.isGap := by
  refine ⟨.nil, fun hc a b => ⟨Reads.cut (isNeutral_of_isGap hc).1, fun h => ?_⟩⟩
  exact Reads.append hR (isNeutral_of_isGap hc) h.1 h.2

theorem harmless_rule (a b : Input) (h : ¬IsEnd a b) :
    IsEnd a b → a.escaped = false ∧ b.escaped = false :=
  fun hend => absurd hend h

theorem harmless_of_plain {text : List Char} (h : ∀ c ∈ text, c ≠ '\\') : Harmless text := by
  refine reads_of_plain h (List.Pairwise.isChain
    (List.pairwise_of_forall_mem_list fun a ha b hb _ => ⟨?_, ?_⟩))
  · obtain ⟨c, -, ha⟩ := List.mem_flatMap.mp ha
    exact (mem_plain ha).1
  · obtain ⟨c, -, hb⟩ := List.mem_flatMap.mp hb
    exact (mem_plain hb).1

theorem harmless_between {c d : Char} (hc : IsNeutral c) (hd : IsNeutral d) {mid : List Char}
    (hmid : '\\' ∉ mid) {a b : List Char} (ha : Harmless a) (hb : Harmless b) :
    Harmless (a ++ (c :: mid ++ d :: b)) := by
  have hplain : Harmless mid := harmless_of_plain fun e he hbackslash => hmid (hbackslash ▸ he)
  exact Reads.between harmless_rule hc hd hplain ha hb

theorem harmless_entity {text : List Char} (h : text ∈ Doc.entities.map String.toList)
    {a b : List Char} (ha : Harmless a) (hb : Harmless b) : Harmless (a ++ (text ++ b)) := by
  have hall : ∀ text ∈ Doc.entities.map String.toList,
      text = '&' :: (text.drop 1).dropLast ++ [';'] ∧ '\\' ∉ (text.drop 1).dropLast := by
    decide
  obtain ⟨htext, hmid⟩ := hall text h
  rw [htext]
  simpa using harmless_between (c := '&') (d := ';') (by decide) (by decide) hmid ha hb

/-- The induction is on the text behind what is escaped already. -/
theorem harmless_flatMap_escapeChar (text : List Char) :
    ∀ a, Harmless (a ++ text) → Harmless (a ++ text.flatMap Doc.escapeChar) := by
  induction text with
  | nil => exact fun _ h => h
  | cons c rest ih =>
    intro a h
    have hstep : Harmless ((a ++ Doc.escapeChar c) ++ rest) := by
      have hmarkup : ∀ {d : Char} {text : List Char}, IsLoose d → c = d →
          text ∈ Doc.entities.map String.toList → Harmless (a ++ text ++ rest) := by
        intro d text hd hc htext
        subst hc
        obtain ⟨ha, hrest⟩ := Reads.cut hd h
        simpa using harmless_entity htext ha hrest
      unfold Doc.escapeChar
      split_ifs with h1 h2 h3 h4
      · exact hmarkup (d := '&') (by decide) h1 (by decide)
      · exact hmarkup (d := '<') (by decide) h2 (by decide)
      · exact hmarkup (d := '>') (by decide) h3 (by decide)
      · exact hmarkup (d := '@') (by decide) h4 (by decide)
      · simpa using h
    simpa using ih _ hstep

theorem harmless_escape {text : List Char} (h : Harmless text) : Harmless (Doc.escape text) := by
  refine Text.replacePair_keeps (fun a b h => ?_) _ [] (harmless_flatMap_escapeChar text [] h)
  have hpair : Harmless ((a ++ ['*']) ++ '/' :: b) := by simpa using h
  obtain ⟨hstar, hb⟩ := Reads.cut (by decide) hpair
  have hslash : "&#47;".toList ∈ Doc.entities.map String.toList := by decide
  simpa using harmless_entity hslash hstar hb

theorem woven_harmless : Doc.Woven Harmless where
  splits := splits_reads harmless_rule
  cut hc _ _ h := Reads.cut (by rcases hc with rfl | rfl <;> decide) h
  opened name hname a b ha hb := by
    have hnames : ∀ name ∈ Doc.tagNames, '\\' ∉ name.toList := by decide
    have hall := harmless_between (c := '<') (d := '>') (by decide) (by decide)
      (hnames name hname) ha hb
    simpa [Doc.opening] using hall
  closed name hname a b ha hb := by
    have hnames : ∀ name ∈ Doc.tagNames, '\\' ∉ '/' :: name.toList := by decide
    have hall := harmless_between (c := '<') (d := '>') (by decide) (by decide)
      (hnames name hname) ha hb
    simpa [Doc.closing] using hall

theorem weaves_harmless : Doc.Weaves Harmless Harmless where
  source := splits_reads harmless_rule
  digits n := by
    refine harmless_of_plain fun c hc => ?_
    have hdigit := Nat.isDigit_of_mem_toDigits (by decide) (by decide) hc
    rintro rfl
    exact absurd hdigit (by decide)
  escape _ := harmless_escape
  woven := woven_harmless

/-- Behind a backslash comes that backslash first, or an escape. -/
theorem step_within {s t : State} {c : Char} {now : List Input} (hs : s ≠ .ready)
    (h : step s c = some (t, now)) :
    (now = [] ∧ t ≠ .ready) ∨ ∃ b more, now = b :: more ∧ (b.escaped = true ∨ b.unit = 0x5c) := by
  cases s with
  | ready => exact absurd rfl hs
  | slash =>
    rw [step, Option.some_inj] at h
    split_ifs at h <;> cases h
    · exact .inl ⟨rfl, by simp⟩
    · exact .inr ⟨⟨0x5c, false⟩, plain c, rfl, .inr rfl⟩
  | mark =>
    rw [step] at h
    split_ifs at h
    · cases h
      exact .inl ⟨rfl, by simp⟩
    · obtain ⟨v, -, hv⟩ := Option.map_eq_some_iff.mp h
      cases hv
      exact .inl ⟨rfl, by simp⟩
  | digits count value =>
    obtain ⟨v, -, hv⟩ := Option.map_eq_some_iff.mp h
    split_ifs at hv <;> cases hv
    · exact .inr ⟨_, [], rfl, .inl rfl⟩
    · exact .inl ⟨rfl, by simp⟩

theorem readFrom_cons {s : State} {c : Char} {rest : List Char} {inputs : List Input}
    (h : readFrom s (c :: rest) = some inputs) :
    ∃ t now later, step s c = some (t, now) ∧ readFrom t rest = some later ∧
      inputs = now ++ later := by
  rw [readFrom] at h
  split at h
  · next t now hstep =>
    obtain ⟨later, hlater, rfl⟩ := Option.map_eq_some_iff.mp h
    exact ⟨t, now, later, hstep, hlater, rfl⟩
  · cases h

theorem head_within {text : List Char} {s : State} {inputs : List Input} (hs : s ≠ .ready)
    (h : readFrom s text = some inputs) : ∀ b ∈ inputs.head?, b.escaped = true ∨ b.unit = 0x5c := by
  induction text generalizing s inputs with
  | nil =>
    intro b hb
    cases s with
    | ready => exact absurd rfl hs
    | slash =>
      cases h
      cases hb
      exact .inr rfl
    | mark => cases h
    | digits => cases h
  | cons c rest ih =>
    obtain ⟨t, now, later, hstep, hlater, rfl⟩ := readFrom_cons h
    rcases step_within hs hstep with ⟨rfl, ht⟩ | ⟨d, more, rfl, hd⟩
    · exact ih ht hlater
    · intro b hb
      cases hb
      exact hd

/-- A slash that no escape stands for is a slash of the text. -/
theorem head_slash {text : List Char} {inputs : List Input} (h : read text = some inputs)
    {b : Input} (hb : b ∈ inputs.head?) (hplain : b.escaped = false) (hunit : b.unit = 0x2f) :
    text.head? = some '/' := by
  cases text with
  | nil =>
    cases h
    cases hb
  | cons c rest =>
    obtain ⟨t, now, later, hstep, hlater, rfl⟩ := readFrom_cons h
    rw [step, Option.some_inj] at hstep
    split_ifs at hstep with hc <;> cases hstep
    · rcases head_within (by simp) hlater b hb with hescaped | hslash
      · rw [hplain] at hescaped
        cases hescaped
      · rw [hunit] at hslash
        cases hslash
    · rw [List.head?_append_of_ne_nil _ (plain_ne_nil c)] at hb
      obtain ⟨-, hmem⟩ := mem_plain (List.mem_of_head? hb)
      rw [hunit] at hmem
      exact congrArg some (eq_of_mem_units (d := '/') (by decide) hmem)

/-- The units that one character completes and no escape stands for are its own, or those
of a backslash before it. -/
theorem step_plain {s t : State} {c : Char} {now : List Input} (h : step s c = some (t, now)) :
    ∀ a ∈ now, a.escaped = false → t = .ready ∧ (a ∈ plain '\\' ∨ a ∈ plain c) := by
  intro a ha hplain
  cases s with
  | ready =>
    rw [step, Option.some_inj] at h
    split_ifs at h <;> cases h
    · cases ha
    · exact ⟨rfl, .inr ha⟩
  | slash =>
    rw [step, Option.some_inj] at h
    split_ifs at h <;> cases h
    · cases ha
    · exact ⟨rfl, List.mem_append.mp ha⟩
  | mark =>
    rw [step] at h
    split_ifs at h
    · cases h
      cases ha
    · obtain ⟨v, -, hv⟩ := Option.map_eq_some_iff.mp h
      cases hv
      cases ha
  | digits count value =>
    obtain ⟨v, -, hv⟩ := Option.map_eq_some_iff.mp h
    split_ifs at hv <;> cases hv
    · cases List.mem_singleton.mp ha
      cases hplain
    · cases ha

theorem eq_of_step {s t : State} {c d : Char} {now : List Input} (h : step s c = some (t, now))
    {a : Input} (ha : a ∈ now) (hplain : a.escaped = false) (hunit : a.unit = d.toNat)
    (hd : d.toNat < 0xd800) (hslash : d ≠ '\\') : c = d ∧ t = .ready := by
  obtain ⟨ht, hmem | hmem⟩ := step_plain h a ha hplain
  · have heq := eq_of_mem_units hd (hunit ▸ (mem_plain hmem).2)
    exact absurd heq.symm hslash
  · exact ⟨eq_of_mem_units hd (hunit ▸ (mem_plain hmem).2), ht⟩

/-- Two units next to each other that no escape stands for do not end a comment. -/
def NoPlainEnd (a b : Input) : Prop := a.escaped = false → b.escaped = false → ¬IsEnd a b

theorem noPlainEnd_step {s t : State} {c : Char} {now : List Input}
    (h : step s c = some (t, now)) : now.IsChain NoPlainEnd := by
  refine List.Pairwise.isChain
    (List.pairwise_of_forall_mem_list fun a ha b hb haplain hbplain hend => ?_)
  have hstar := (eq_of_step (d := '*') h ha haplain hend.1 (by decide) (by decide)).1
  have hslash := (eq_of_step (d := '/') h hb hbplain hend.2 (by decide) (by decide)).1
  rw [hstar] at hslash
  exact absurd hslash (by decide)

/-- Units next to each other that no escape stands for come from characters next to
each other. -/
theorem noPlainEnd_of_noEnd {text : List Char} (hend : Doc.NoEnd text) {s : State}
    {inputs : List Input} (h : readFrom s text = some inputs) : inputs.IsChain NoPlainEnd := by
  induction text generalizing s inputs with
  | nil =>
    cases s with
    | slash =>
      cases h
      exact .singleton _
    | ready =>
      cases h
      exact .nil
    | mark => cases h
    | digits => cases h
  | cons c rest ih =>
    obtain ⟨t, now, later, hstep, hlater, rfl⟩ := readFrom_cons h
    obtain ⟨hnext, hrest⟩ := List.isChain_cons.mp hend
    refine List.isChain_append.mpr ⟨noPlainEnd_step hstep, ih hrest hlater, ?_⟩
    intro a ha b hb haplain hbplain hab
    obtain ⟨rfl, rfl⟩ := eq_of_step (d := '*') hstep (List.mem_of_getLast? ha) haplain hab.1
      (by decide) (by decide)
    exact hnext '/' (head_slash hlater hb hbplain hab.2) ⟨rfl, rfl⟩

theorem contained_of_harmless {text : List Char} (h : Harmless text) (hend : Doc.NoEnd text) :
    Contained text := by
  obtain ⟨inputs, hread, hchain⟩ := h
  have hplain := noPlainEnd_of_noEnd hend hread
  rw [List.isChain_iff_forall_rel_of_append_cons_cons] at hchain hplain
  refine ⟨inputs, hread, List.isChain_iff_forall_rel_of_append_cons_cons.mpr ?_⟩
  intro a b before after heq hab
  obtain ⟨ha, hb⟩ := hchain heq hab
  exact hplain heq ha hb hab

end ApiContract.Lexical
