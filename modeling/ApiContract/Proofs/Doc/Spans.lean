import ApiContract.Proofs.Doc.Tags
import ApiContract.Proofs.Text.Cut
import ApiContract.Proofs.Text.Digits

/-! # Code spans

Code spans leave numbered markers in the text, which is then escaped and searched for emphasis.
No pass cuts a marker in two, doubles it or moves it past another, for the marks of emphasis are
neither digits nor the ends of markers. So each span comes back where it was, as it was.
-/
namespace ApiContract.Doc

/-- The spans among texts that follow a tick each: such a text is a span if it is not empty and
there is a tick behind it, which closes the span and opens none. -/
def spansOf : List (List Char) → List (List Char)
  | content :: next :: rest =>
    if content.isEmpty then spansOf (next :: rest) else content :: spansOf rest
  | _ => []

/-- The contents of the code spans of a text, from the left. -/
def codeSpans (text : List Char) : List (List Char) := spansOf (Text.splitAt '\x60' text).tail

/-- Text around the code spans: no part of a marker is in it, and no tag of code. -/
structure Outside (text : List Char) : Prop where
  unmarked : '\x00' ∉ text
  markedUp : IsMarkedUp text
  codeless : ∀ tag ∈ tagsOf text, tag.name ≠ "code"

theorem codeSpans_cons_of_ne {c : Char} (hc : c ≠ '\x60') (rest : List Char) :
    codeSpans (c :: rest) = codeSpans rest := by
  unfold codeSpans Text.splitAt
  cases hs : Text.splitWhere (· == '\x60') rest with
  | nil => exact absurd hs (Text.splitWhere_ne_nil _ rest)
  | cons piece pieces => simp [Text.splitWhere, hc, hs]

theorem codeSpans_tick (rest : List Char) :
    codeSpans ('\x60' :: rest) = spansOf (Text.splitAt '\x60' rest) := by
  simp [codeSpans, Text.splitAt, Text.splitWhere]

/-- A span, up to the tick that closes it. -/
theorem codeSpans_span {content : List Char} (hne : content ≠ []) (hcontent : '\x60' ∉ content)
    (more : List Char) :
    codeSpans ('\x60' :: (content ++ '\x60' :: more)) = content :: codeSpans more := by
  rw [codeSpans_tick, Text.splitAt_append, Text.splitAt_of_not_mem hcontent, codeSpans]
  cases hs : Text.splitAt '\x60' more with
  | nil => exact absurd hs (Text.splitWhere_ne_nil _ more)
  | cons next rest => simp [spansOf, hne]

theorem spanContent_eq_some {content : List Char} (hne : content ≠ [])
    (hcontent : '\x60' ∉ content) (more : List Char) :
    spanContent? (content ++ '\x60' :: more) = some content := by
  have hall : ∀ c ∈ content, (!isTick c) = true := fun c hc => by
    have hne : c ≠ '\x60' := fun h => hcontent (h ▸ hc)
    simpa [isTick] using hne
  have htake : (content ++ '\x60' :: more).takeWhile (fun c => !isTick c) = content := by
    rw [List.takeWhile_append_of_pos hall, List.takeWhile_cons_of_neg (by decide), List.append_nil]
  have hdrop : (content ++ '\x60' :: more).dropWhile (fun c => !isTick c) = '\x60' :: more := by
    rw [List.dropWhile_append_of_pos hall, List.dropWhile_cons_of_neg (by decide)]
  unfold spanContent?
  rw [htake, hdrop]
  cases content with
  | nil => exact absurd rfl hne
  | cons c rest => rfl

/-- A tick that opens no span, for there is nothing before the next one, or no next one. -/
theorem codeSpans_stray {rest : List Char} (h : spanContent? rest = none) :
    codeSpans ('\x60' :: rest) = codeSpans rest := by
  by_cases htick : '\x60' ∈ rest
  · obtain ⟨before, after, rfl, hbefore⟩ := List.eq_append_cons_of_mem htick
    obtain rfl : before = [] := by
      by_contra hne
      rw [spanContent_eq_some hne hbefore] at h
      cases h
    rw [List.nil_append, codeSpans_tick, codeSpans_tick]
    cases hs : Text.splitAt '\x60' after with
    | nil => exact absurd hs (Text.splitWhere_ne_nil _ after)
    | cons next rest =>
      rw [← List.nil_append ('\x60' :: after), Text.splitAt_append, hs]
      rfl
  · rw [codeSpans_tick, codeSpans, Text.splitAt_of_not_mem htick]
    rfl

theorem spans_takeSpans (text : List Char) : ∀ index skip,
    (takeSpans index skip text).spans = codeSpans (text.drop skip) := by
  induction text with
  | nil =>
    intro index skip
    cases skip <;> rfl
  | cons c rest ih =>
    intro index skip
    cases skip with
    | succ skip => exact ih index skip
    | zero =>
      rw [takeSpans]
      split
      · next content hcontent =>
        split_ifs at hcontent with hc
        obtain rfl : c = '\x60' := by simpa [isTick] using hc
        obtain ⟨more, hne, hticks, rfl⟩ := spanContent_append hcontent
        have hdrop : (content ++ '\x60' :: more).drop (content.length + 1) = more := by
          simp [List.drop_append]
        have hlater := ih (index + 1) (content.length + 1)
        rw [hdrop] at hlater
        rw [List.drop_zero, codeSpans_span hne hticks]
        exact congrArg (content :: ·) hlater
      · next hnone =>
        rw [Marked.keep, ih index 0, List.drop_zero, List.drop_zero]
        split_ifs at hnone with hc
        · obtain rfl : c = '\x60' := by simpa [isTick] using hc
          exact (codeSpans_stray hnone).symm
        · have hne : c ≠ '\x60' := by simpa [isTick] using hc
          exact (codeSpans_cons_of_ne hne rest).symm

theorem ne_nil_of_mem_spansOf (pieces : List (List Char)) :
    ∀ content ∈ spansOf pieces, content ≠ [] := by
  fun_induction spansOf pieces with
  | case1 content next rest hempty ih => exact ih
  | case2 content next rest hempty ih =>
    exact List.forall_mem_cons.mpr ⟨by simpa using hempty, ih⟩
  | case3 => simp

/-- A span stands between two ticks and is not empty. -/
theorem three_mul_length_codeSpans (text : List Char) :
    3 * (codeSpans text).length ≤ text.length := by
  have hrewrites := rewrites_takeSpans text 0 0
  rw [spans_takeSpans, List.drop_zero] at hrewrites
  have hwidth : ∀ pair ∈ ((codeSpans text).zipIdx 0).map spanPair, 3 ≤ pair.1.length := by
    refine List.forall_mem_map.mpr fun numbered hnumbered => ?_
    have hne := ne_nil_of_mem_spansOf _ numbered.1 (List.fst_mem_of_mem_zipIdx hnumbered)
    have hlength := List.length_pos_of_ne_nil hne
    simp only [spanPair, List.length_cons, List.length_append, List.length_nil]
    omega
  simpa using hrewrites.length_le hwidth

/-- The text with its markers. -/
theorem inOrder_takeSpans {text : List Char} (h : '\x00' ∉ text) :
    Text.InOrder ('\x00' ∉ ·) ((List.range (codeSpans text).length).map marker)
      (takeSpans 0 0 text).text := by
  have hrewrites := rewrites_takeSpans text 0 0
  have hmarked := hrewrites.inOrder (P := ('\x00' ∉ ·)) (by simp) (by simpa using h)
  rw [spans_takeSpans, List.drop_zero] at hmarked
  have hmarkers : (((codeSpans text).zipIdx 0).map spanPair).map Prod.snd =
      (List.range (codeSpans text).length).map marker := by
    rw [List.map_map, List.range_eq_range', ← List.zipIdx_map_snd, List.map_map]
    rfl
  rwa [hmarkers] at hmarked

theorem escape_append_cons {c : Char} (hc : escapeChar c = [c]) (hstar : c ≠ '*') (hslash : c ≠ '/')
    (a b : List Char) : escape (a ++ c :: b) = escape a ++ c :: escape b := by
  have hchars : (a ++ c :: b).flatMap escapeChar =
      a.flatMap escapeChar ++ c :: b.flatMap escapeChar := by
    rw [List.flatMap_append, List.flatMap_cons, hc, List.singleton_append]
  rw [escape, hchars, Text.replacePair_append_cons hstar hslash, escape, escape]

theorem mem_marker {c : Char} {index : ℕ} (h : c ∈ marker index) :
    c = '\x00' ∨ c.isDigit = true := by
  rcases List.mem_append.mp h with h | h
  · rcases List.mem_cons.mp h with rfl | h
    · exact .inl rfl
    · exact .inr (Nat.isDigit_of_mem_toDigits (by decide) (by decide) h)
  · exact .inl (List.mem_singleton.mp h)

/-- The characters of a marker are escaped as they are, and so part the text around it. -/
theorem escape_append_marker (index : ℕ) (a b : List Char) :
    escape (a ++ (marker index ++ b)) = escape a ++ (marker index ++ escape b) := by
  have hplain : ∀ c, c = '\x00' ∨ c.isDigit = true →
      escapeChar c = [c] ∧ c ≠ '*' ∧ c ≠ '/' := by
    intro c hc
    have hother : ∀ d, d ≠ '\x00' → d.isDigit = false → c ≠ d := by
      rintro d hne hdigit rfl
      rcases hc with rfl | hc
      · exact hne rfl
      · rw [hdigit] at hc
        cases hc
    refine ⟨?_, hother '*' (by decide) (by decide), hother '/' (by decide) (by decide)⟩
    rw [escapeChar, if_neg (hother '&' (by decide) (by decide)),
      if_neg (hother '<' (by decide) (by decide)), if_neg (hother '>' (by decide) (by decide)),
      if_neg (hother '@' (by decide) (by decide))]
  have hchars : ∀ chars : List Char, (∀ c ∈ chars, c = '\x00' ∨ c.isDigit = true) → chars ≠ [] →
      ∀ a, escape (a ++ (chars ++ b)) = escape a ++ (chars ++ escape b) := by
    intro chars
    induction chars with
    | nil => exact fun _ hne => absurd rfl hne
    | cons c chars ih =>
      intro hall _ a
      obtain ⟨hc, hrest⟩ := List.forall_mem_cons.mp hall
      obtain ⟨hsame, hstar, hslash⟩ := hplain c hc
      rw [List.cons_append, escape_append_cons hsame hstar hslash]
      cases chars with
      | nil => rfl
      | cons d chars => exact congrArg (escape a ++ c :: ·) (ih hrest (List.cons_ne_nil _ _) [])
  exact hchars _ (fun c hc => mem_marker hc) (List.cons_ne_nil _ _) a

theorem outside_escape {text : List Char} (h : '\x00' ∉ text) : Outside (escape text) where
  unmarked := not_mem_escape (by decide) fun hmem => absurd hmem h
  markedUp := isMarkedUp_escape text
  codeless := by simp [tagsOf_escape]

/-- Escaping keeps the markers and their order. -/
theorem inOrder_escape {row : List ℕ} {text : List Char}
    (h : Text.InOrder ('\x00' ∉ ·) (row.map marker) text) :
    Text.InOrder Outside (row.map marker) (escape text) := by
  induction row generalizing text with
  | nil =>
    cases h with
    | last h => exact .last (outside_escape h)
  | cons index row ih =>
    cases h with
    | next hbefore hrest =>
      rw [escape_append_marker]
      exact .next (outside_escape hbefore) (ih hrest)

theorem Outside.append {a b : List Char} (ha : Outside a) (hb : Outside b) : Outside (a ++ b) where
  unmarked := by simp [ha.unmarked, hb.unmarked]
  markedUp := ha.markedUp.append hb.markedUp
  codeless := by
    rw [ha.markedUp.tagsOf_append]
    exact List.forall_mem_append.mpr ⟨ha.codeless, hb.codeless⟩

theorem Outside.cut {c : Char} (hc : c = '*' ∨ c = '_') {a b : List Char}
    (h : Outside (a ++ c :: b)) : Outside a ∧ Outside b := by
  obtain ⟨ha, hb⟩ := woven_isMarkedUp.cut hc a b h.markedUp
  have hunmarked : '\x00' ∉ a ∧ '\x00' ∉ c :: b := by simpa using h.unmarked
  have hcodeless := h.codeless
  have hplain : '<' ∉ [c] := by
    rcases hc with rfl | rfl <;> decide
  rw [ha.tagsOf_append, ← List.singleton_append, tagsOf_append_of_not_mem hplain] at hcodeless
  obtain ⟨hfirst, hsecond⟩ := List.forall_mem_append.mp hcodeless
  exact ⟨⟨hunmarked.1, ha, hfirst⟩, List.not_mem_of_not_mem_cons hunmarked.2, hb, hsecond⟩

/-- A text with its markers in their order. -/
theorem dressable_markers :
    Dressable fun row text => Text.InOrder Outside (List.map marker row) text where
  nil {row} h := by
    cases row with
    | nil => rfl
    | cons index row =>
      generalize htext : ([] : List Char) = text at h
      cases h with
      | next _ _ => simp [marker] at htext
  cut {c} hc {row a b} h := by
    have hmarkers : ∀ part ∈ row.map marker, c ∉ part := by
      refine List.forall_mem_map.mpr fun index _ hmem => ?_
      rcases hc with rfl | rfl <;> exact absurd (mem_marker hmem) (by decide)
    obtain ⟨x, y, hrow, hx, hy⟩ := h.cut (fun _ _ => Outside.cut hc) hmarkers
    obtain ⟨before, later, rfl, rfl, rfl⟩ := List.map_eq_append_iff.mp hrow
    exact ⟨before, later, rfl, hx, hy⟩
  tagged name hname {x y z a content b} ha hcontent hb := by
    have htags : ∀ name ∈ ["strong", "em"], name ∈ tagNames ∧
        ('\x00' ∉ opening name ∧ ∀ tag ∈ tagsOf (opening name), tag.name ≠ "code") ∧
        '\x00' ∉ closing name ∧ ∀ tag ∈ tagsOf (closing name), tag.name ≠ "code" := by decide
    obtain ⟨hmember, ⟨hopenPlain, hopenTags⟩, hclosePlain, hcloseTags⟩ := htags name hname
    have hopen : Outside (opening name) :=
      ⟨hopenPlain, isMarkedUp_piece (.opening name hmember), hopenTags⟩
    have hclose : Outside (closing name) :=
      ⟨hclosePlain, isMarkedUp_piece (.closing name hmember), hcloseTags⟩
    have hjoin : ∀ a b, Outside a → Outside b → Outside (a ++ b) := fun _ _ => Outside.append
    have hend := hcontent.append hjoin ((Text.InOrder.last hclose).append hjoin hb)
    have hall := ha.append hjoin ((Text.InOrder.last hopen).append hjoin hend)
    simpa [tagged_eq] using hall

theorem inOrder_emphasisText {text : List Char} (h : '\x00' ∉ text) :
    Text.InOrder Outside ((List.range (codeSpans text).length).map marker) (emphasisText text) :=
  dressable_markers.emphasisText (inOrder_escape (inOrder_takeSpans h))

section Filling

variable {spans : List (List Char)} {rest out : List Char}

theorem putSpans_skip (text : List Char) : ∀ skip,
    putSpans spans skip text = putSpans spans 0 (text.drop skip) := by
  induction text with
  | nil => intro skip; cases skip <;> rfl
  | cons c rest ih =>
    intro skip
    cases skip with
    | zero => rfl
    | succ skip => exact ih skip

theorem putSpans_plain {before : List Char} (h : '\x00' ∉ before) :
    putSpans spans 0 (before ++ rest) = .ok out ↔
      ∃ later, putSpans spans 0 rest = .ok later ∧ out = before ++ later := by
  induction before generalizing out with
  | nil => simp
  | cons c before ih =>
    have hc : c ≠ '\x00' := (List.ne_of_not_mem_cons h).symm
    have hbefore := List.not_mem_of_not_mem_cons h
    simp only [List.cons_append, putSpans, if_neg hc, Outcome.bind_eq_ok, ih hbefore,
      Outcome.pure_eq_ok]
    constructor
    · rintro ⟨_, ⟨later, hlater, rfl⟩, rfl⟩
      exact ⟨later, hlater, rfl⟩
    · rintro ⟨later, hlater, rfl⟩
      exact ⟨_, ⟨later, hlater, rfl⟩, rfl⟩

theorem markerDigits_toDigits (index : ℕ) (rest : List Char) :
    markerDigits? (Nat.toDigits 10 index ++ '\x00' :: rest) = some (Nat.toDigits 10 index) := by
  have hall : ∀ c ∈ Nat.toDigits 10 index, Text.isDecimal c = true := fun c hc =>
    Text.isDecimal_of_isDigit (Nat.isDigit_of_mem_toDigits (by decide) (by decide) hc)
  have hne : Nat.toDigits 10 index ≠ [] := Nat.toDigits_ne_nil
  generalize Nat.toDigits 10 index = digits at hall hne
  have hend : ¬Text.isDecimal '\x00' = true := by decide
  unfold markerDigits?
  rw [List.takeWhile_append_of_pos hall, List.dropWhile_append_of_pos hall,
    List.takeWhile_cons_of_neg hend, List.dropWhile_cons_of_neg hend, List.append_nil]
  cases digits with
  | nil => exact absurd rfl hne
  | cons c digits => rfl

theorem putSpans_marker (index : ℕ) :
    putSpans spans 0 (marker index ++ rest) = .ok out ↔
      ∃ span later, spanAt spans (Nat.toDigits 10 index) = .ok span ∧
        putSpans spans 0 rest = .ok later ∧ out = span ++ later := by
  have hdrop : (Nat.toDigits 10 index ++ '\x00' :: rest).drop
      ((Nat.toDigits 10 index).length + 1) = rest := by
    simp [List.drop_append]
  have htext : marker index ++ rest = '\x00' :: (Nat.toDigits 10 index ++ '\x00' :: rest) := by
    simp [marker]
  rw [htext, putSpans]
  simp only [if_true, markerDigits_toDigits, putSpans_skip _ (_ + 1), hdrop, Outcome.bind_eq_ok,
    Outcome.pure_eq_ok]
  constructor
  · rintro ⟨span, hspan, later, hlater, rfl⟩
    exact ⟨span, later, hspan, hlater, rfl⟩
  · rintro ⟨span, later, hspan, hlater, rfl⟩
    exact ⟨span, hspan, later, hlater, rfl⟩

/-- The markers are replaced in their order, and what stands around them stays. -/
theorem putSpans_inOrder (spans : List (List Char)) {P : List Char → Prop}
    (hP : ∀ text, P text → '\x00' ∉ text) {row : List ℕ} {text : List Char}
    (h : Text.InOrder P (row.map marker) text) :
    (∀ parts, List.Forall₂ (fun i part => spanAt spans (Nat.toDigits 10 i) = .ok part) row parts →
      Outcome.Succeeds (putSpans spans 0 text)) ∧
    ∀ out, putSpans spans 0 text = .ok out → ∃ parts,
      List.Forall₂ (fun i part => spanAt spans (Nat.toDigits 10 i) = .ok part) row parts ∧
        Text.InOrder P parts out := by
  induction row generalizing text with
  | nil =>
    cases h with
    | last h =>
      have hwhole : putSpans spans 0 text = .ok text := by
        have hplain : putSpans spans 0 (text ++ []) = .ok (text ++ []) :=
          (putSpans_plain (hP text h)).mpr ⟨[], rfl, rfl⟩
        rwa [List.append_nil] at hplain
      refine ⟨fun _ _ => ⟨text, hwhole⟩, fun out hout => ?_⟩
      cases hwhole.symm.trans hout
      exact ⟨[], .nil, .last h⟩
  | cons index row ih =>
    cases h with
    | @next before _ rest _ hbefore hrest =>
      obtain ⟨hsucceeds, hparts⟩ := ih hrest
      constructor
      · rintro _ (_ | ⟨hspan, hlater⟩)
        obtain ⟨later, hlater⟩ := hsucceeds _ hlater
        exact ⟨_, (putSpans_plain (hP before hbefore)).mpr
          ⟨_, (putSpans_marker index).mpr ⟨_, later, hspan, hlater, rfl⟩, rfl⟩⟩
      · intro out hout
        obtain ⟨_, hbehind, rfl⟩ := (putSpans_plain (hP before hbefore)).mp hout
        obtain ⟨span, later, hspan, hlater, rfl⟩ := (putSpans_marker index).mp hbehind
        obtain ⟨parts, hall, hinOrder⟩ := hparts later hlater
        exact ⟨span :: parts, .cons hspan hall, .next hbefore hinOrder⟩

theorem spanAt_toDigits {index : ℕ} {part : List Char} :
    spanAt spans (Nat.toDigits 10 index) = .ok part ↔
      index < 10 ^ Text.numeralLimit ∧ spans[index]? = some part := by
  simp only [spanAt, Outcome.bind_eq_ok, Outcome.need_eq_ok, Text.numeral?_toDigits]
  by_cases hindex : index < 10 ^ Text.numeralLimit <;> simp [hindex]

/-- All spans are read by their numbers, as long as no number has too many digits. -/
theorem forall₂_spanAt_range {parts : List (List Char)} :
    List.Forall₂ (fun i part => spanAt spans (Nat.toDigits 10 i) = .ok part)
        (List.range spans.length) parts ↔
      parts = spans ∧ spans.length ≤ 10 ^ Text.numeralLimit := by
  simp only [spanAt_toDigits, List.forall₂_iff_get, List.length_range, List.get_eq_getElem,
    List.getElem_range]
  constructor
  · rintro ⟨hlength, hall⟩
    refine ⟨List.ext_getElem hlength.symm fun i hi hi' => ?_, ?_⟩
    · obtain ⟨-, hread⟩ := hall i hi' hi
      rw [List.getElem?_eq_getElem hi'] at hread
      exact (Option.some.inj hread).symm
    · by_contra hmany
      have hlast := lt_of_not_ge hmany
      exact lt_irrefl _ (hall _ hlast (hlength ▸ hlast)).1
  · rintro ⟨rfl, hfew⟩
    exact ⟨rfl, fun i hi hi' => ⟨lt_of_lt_of_le hi hfew, List.getElem?_eq_getElem hi⟩⟩

end Filling

/-- No span has an end of a marker in it if the text has none. -/
theorem unmarked_codeSpans {text : List Char} (h : '\x00' ∉ text) :
    ∀ content ∈ codeSpans text, '\x00' ∉ content := by
  intro content hcontent hmem
  rw [← List.drop_zero (l := text), ← spans_takeSpans text 0 0] at hcontent
  obtain ⟨index, hindex⟩ := List.mem_iff_getElem?.mp hcontent
  have hmember : (content, index) ∈ (takeSpans 0 0 text).spans.zipIdx 0 :=
    List.mk_mem_zipIdx_iff_getElem?.mpr hindex
  obtain ⟨a, b, hin⟩ := (rewrites_takeSpans text 0 0).exists_of_mem (List.mem_map_of_mem hmember)
  rw [List.drop_zero] at hin
  exact h (hin ▸ by simp [spanPair, hmem])

/-- An outcome has the elements of all code spans, and no end of a marker is left in it. -/
theorem inOrder_inlineChars {text out : List Char} (h : '\x00' ∉ text)
    (hout : inlineChars text = .ok out) :
    (codeSpans text).length ≤ 10 ^ Text.numeralLimit ∧ '\x00' ∉ out ∧
      Text.InOrder Outside ((codeSpans text).map codeElement) out := by
  rw [inlineChars_eq, spans_takeSpans, List.drop_zero] at hout
  have hmarkers := inOrder_emphasisText h
  rw [← List.length_map (f := codeElement)] at hmarkers
  obtain ⟨parts, hall, hinOrder⟩ := (putSpans_inOrder ((codeSpans text).map codeElement)
    (fun _ houtside => houtside.unmarked) hmarkers).2 out hout
  obtain ⟨rfl, hfew⟩ := forall₂_spanAt_range.mp hall
  have hcode : ∀ part ∈ (codeSpans text).map codeElement, ∀ c ∈ part, c ≠ '\x00' := by
    refine List.forall_mem_map.mpr fun content hcontent => ?_
    rintro _ hmem rfl
    have hescaped := (outside_escape (unmarked_codeSpans h content hcontent)).unmarked
    simp [codeElement, tagged, hescaped] at hmem
  have hunmarked := hinOrder.forall_mem (p := (· ≠ '\x00'))
    (fun text houtside c hc heq => houtside.unmarked (heq ▸ hc)) hcode
  exact ⟨by simpa using hfew, fun hmem => hunmarked _ hmem rfl, hinOrder⟩

/-- A text has an outcome unless its code spans have numbers of too many digits, for which it has to
be three times as long as there are numbers of fewer digits. The outcome has an element for each
code span, in the order of the spans, with all of the span and nothing else. -/
theorem code_spans_kept {text : List Char} (h : '\x00' ∉ text) :
    (Outcome.Succeeds (inlineChars text) ↔
      (codeSpans text).length ≤ 10 ^ Text.numeralLimit) ∧
    3 * (codeSpans text).length ≤ text.length ∧
    ∀ out, inlineChars text = .ok out →
      '\x00' ∉ out ∧ Text.InOrder Outside ((codeSpans text).map codeElement) out := by
  refine ⟨⟨?_, fun hfew => ?_⟩, three_mul_length_codeSpans text, fun out hout =>
    (inOrder_inlineChars h hout).2⟩
  · rintro ⟨out, hout⟩
    exact (inOrder_inlineChars h hout).1
  · rw [inlineChars_eq, spans_takeSpans, List.drop_zero]
    have hmarkers := inOrder_emphasisText h
    rw [← List.length_map (f := codeElement)] at hmarkers
    exact (putSpans_inOrder ((codeSpans text).map codeElement)
      (fun _ houtside => houtside.unmarked) hmarkers).1 _
        (forall₂_spanAt_range.mpr ⟨rfl, by simpa using hfew⟩)

/-- Marks of emphasis around spans, in them, and from one to another, digits beside spans, and
ticks that open no span. -/
theorem code_spans_kept_crossed :
    ∃ out, '\x00' ∉ "**a `*b*` 0`<c>`1** *`**`2* `` d".toList ∧
      inlineChars "**a `*b*` 0`<c>`1** *`**`2* `` d".toList = .ok out ∧
      out = ("<strong>a <code>*b*</code> 0<code>&lt;c&gt;</code>1</strong> " ++
        "<em><code>**</code>2</em> `` d").toList ∧
      codeSpans "**a `*b*` 0`<c>`1** *`**`2* `` d".toList =
        ["*b*".toList, "<c>".toList, "**".toList] ∧
      '\x00' ∉ out ∧
      Text.InOrder Outside ["<code>*b*</code>".toList, "<code>&lt;c&gt;</code>".toList,
        "<code>**</code>".toList] out := by
  have hplain : '\x00' ∉ "**a `*b*` 0`<c>`1** *`**`2* `` d".toList := by decide
  have hrun : (inlineChars "**a `*b*` 0`<c>`1** *`**`2* `` d".toList).toOption.map id =
      some ("<strong>a <code>*b*</code> 0<code>&lt;c&gt;</code>1</strong> " ++
        "<em><code>**</code>2</em> `` d").toList := by
    decide +kernel
  have hspans : codeSpans "**a `*b*` 0`<c>`1** *`**`2* `` d".toList =
      ["*b*".toList, "<c>".toList, "**".toList] := by
    decide +kernel
  obtain ⟨out, hout, hread⟩ := Outcome.exists_of_map_toOption hrun
  obtain ⟨hunmarked, hinOrder⟩ := (code_spans_kept hplain).2.2 out hout
  rw [hspans] at hinOrder
  exact ⟨out, hplain, hout, hread, hspans, hunmarked, hinOrder⟩

end ApiContract.Doc
