import ApiContract.Doc.Comment
import ApiContract.Proofs.Doc.Blocks
import ApiContract.Proofs.Outcome
import ApiContract.Proofs.Text.Rewriting
import ApiContract.Proofs.Text.Wrap

/-! # What the passes over a description keep

Code spans are cut out before anything is escaped and come back last; between that,
marks of emphasis become tags, and at the end the text is wrapped. Each of the passes is
a rewriting of some parts of the text. A property that escaped text has and that none of
these rewritings breaks is one of every line.
-/
namespace ApiContract.Doc

def opening (name : String) : List Char := '<' :: name.toList ++ ['>']

def closing (name : String) : List Char := '<' :: '/' :: name.toList ++ ['>']

/-- The tags that the comments are written with. -/
def tagNames : List String := ["p", "ul", "li", "pre", "code", "strong", "em"]

/-- A property that allows a tag anywhere and a mark of emphasis to go. -/
structure Woven (P : List Char → Prop) : Prop where
  splits : Text.Splits P isGap
  cut : ∀ {c}, c = '*' ∨ c = '_' → ∀ a b, P (a ++ c :: b) → P a ∧ P b
  opened : ∀ name ∈ tagNames, ∀ a b, P a → P b → P (a ++ (opening name ++ b))
  closed : ∀ name ∈ tagNames, ∀ a b, P a → P b → P (a ++ (closing name ++ b))

/-- A property of descriptions that escaping turns into one of their lines. -/
structure Weaves (Q P : List Char → Prop) : Prop where
  source : Text.Splits Q isGap
  digits : ∀ n, Q (Nat.toDigits 10 n)
  escape : ∀ text, Q text → P (escape text)
  woven : Woven P

theorem tagged_eq (name : String) (content : List Char) :
    tagged name content = opening name ++ (content ++ closing name) := by
  simp [tagged, opening, closing]

/-- A run of stars and underscores. -/
def IsMark (mark : List Char) : Prop := mark ≠ [] ∧ ∀ c ∈ mark, c = '*' ∨ c = '_'

/-- A content between two marks, and the element that is written for it. -/
def Dresses (name : String) (pair : List Char × List Char) : Prop :=
  ∃ mark content, IsMark mark ∧ pair = (mark ++ (content ++ mark), tagged name content)

theorem writes_strongWith {mark : Char} (hmark : mark = '*' ∨ mark = '_') :
    Text.Writes (Dresses "strong") fun _ text => strongWith mark text := by
  intro _ text width new h
  replace h : strongWith mark text = some (width, new) := h
  unfold strongWith at h
  split at h
  · next first second rest =>
    split_ifs at h with hmarks
    obtain ⟨rfl, rfl⟩ := hmarks
    obtain ⟨content, hcontent, heq⟩ := Option.map_eq_some_iff.mp h
    cases heq
    obtain ⟨last, more, rfl, hcloses⟩ := Text.shortestContent_append hcontent
    obtain ⟨later, rfl⟩ := List.isPrefixOf_iff_prefix.mp hcloses
    have hpair : IsMark [second, second] := ⟨List.cons_ne_nil _ _, by simpa using hmark⟩
    exact ⟨[second, second] ++ (content ++ [second, second]), later, by simp, by simp, by simp,
      _, content, hpair, rfl⟩
  · cases h

theorem writes_emphasisWith {mark : Char} (hmark : mark = '*' ∨ mark = '_') (bars : Char → Bool) :
    Text.Writes (Dresses "em") (emphasisWith mark bars) := by
  intro before text width new h
  unfold emphasisWith at h
  split at h
  · next first rest =>
    split_ifs at h with hstart
    obtain ⟨rfl, -⟩ := hstart
    obtain ⟨content, hcontent, heq⟩ := Option.map_eq_some_iff.mp h
    cases heq
    obtain ⟨last, more, rfl, hcloses⟩ := Text.shortestContent_append hcontent
    cases more with
    | nil => simp [closesEmphasis] at hcloses
    | cons close later =>
      have hclose : close = first := by
        simp only [closesEmphasis, Bool.and_eq_true, beq_iff_eq] at hcloses
        exact hcloses.2.1
      subst hclose
      have hsingle : IsMark [close] := ⟨List.cons_ne_nil _ _, by simpa using hmark⟩
      exact ⟨[close] ++ (content ++ [close]), later, by simp, by simp, by simp, _, content,
        hsingle, rfl⟩
  · cases h

/-- Strong emphasis dresses some contents that stand between marks. -/
theorem writes_strongRule : Text.Writes (Dresses "strong") strongRule :=
  (writes_strongWith (.inl rfl)).or (writes_strongWith (.inr rfl))

theorem writes_emphasisRule : Text.Writes (Dresses "em") emphasisRule :=
  (writes_emphasisWith (.inl rfl) _).or (writes_emphasisWith (.inr rfl) _)

/-- The text with its strong emphasis, in which plain emphasis is looked for. -/
def strongText (text : List Char) : List Char :=
  Text.substitute strongRule (escape (takeSpans 0 0 text).text)

/-- The text with all of its emphasis, and with a marker in the place of each code span. -/
def emphasisText (text : List Char) : List Char := Text.substitute emphasisRule (strongText text)

/-- A property of a text with a row of things in it: a mark cuts the text and the row in two, and an
element of emphasis joins two texts and their rows with its content and the row of that. -/
structure Dressable {β : Type} (P : List β → List Char → Prop) : Prop where
  nil : ∀ {row}, P row [] → row = []
  cut : ∀ {c}, c = '*' ∨ c = '_' → ∀ {row a b}, P row (a ++ c :: b) →
    ∃ x y, row = x ++ y ∧ P x a ∧ P y b
  tagged : ∀ name ∈ ["strong", "em"], ∀ {x y z a content b}, P x a → P y content → P z b →
    P (x ++ (y ++ z)) (a ++ (tagged name content ++ b))

section Marks

variable {β : Type} {P : List β → List Char → Prop} (hP : Dressable P) {row : List β}
include hP

/-- Between the characters of a mark there is no text, and so nothing of the row. -/
theorem Dressable.cutMark {mark : List Char} (hmark : IsMark mark) {a b : List Char}
    (h : P row (a ++ (mark ++ b))) : ∃ x y, row = x ++ y ∧ P x a ∧ P y b := by
  obtain ⟨hne, hchars⟩ := hmark
  induction mark generalizing row a with
  | nil => exact absurd rfl hne
  | cons c mark ih =>
    obtain ⟨hc, hrest⟩ := List.forall_mem_cons.mp hchars
    obtain ⟨x, y, rfl, ha, hb⟩ := hP.cut hc h
    cases mark with
    | nil => exact ⟨x, y, rfl, ha, hb⟩
    | cons d mark =>
      obtain ⟨between, z, rfl, hbetween, hz⟩ := ih (a := []) hb (List.cons_ne_nil d mark) hrest
      obtain rfl := hP.nil hbetween
      exact ⟨x, z, rfl, ha, hz⟩

theorem Dressable.dresses {name : String} (hname : name ∈ ["strong", "em"])
    {pair : List Char × List Char} (hpair : Dresses name pair) (a b : List Char)
    (h : P row (a ++ (pair.1 ++ b))) : P row (a ++ (pair.2 ++ b)) := by
  obtain ⟨mark, content, hmark, rfl⟩ := hpair
  obtain ⟨x, rest, rfl, ha, hrest⟩ :=
    hP.cutMark hmark (b := content ++ (mark ++ b)) (by simpa using h)
  obtain ⟨y, z, rfl, hcontent, hb⟩ := hP.cutMark hmark hrest
  exact hP.tagged name hname ha hcontent hb

/-- Emphasis keeps the property and the row. -/
theorem Dressable.substitute {name : String} (hname : name ∈ ["strong", "em"]) {rule : Text.Rule}
    (hrule : Text.Writes (Dresses name) rule) {text : List Char} (h : P row text) :
    P row (Text.substitute rule text) := by
  obtain ⟨pairs, hrewrites, hall, -⟩ := Text.exists_rewrites_substitute hrule text
  exact hrewrites.keeps (fun pair hpair => hP.dresses hname (hall pair hpair)) [] h

theorem Dressable.strongText {text : List Char} (h : P row (escape (takeSpans 0 0 text).text)) :
    P row (strongText text) :=
  hP.substitute (by decide) writes_strongRule h

theorem Dressable.emphasisText {text : List Char} (h : P row (escape (takeSpans 0 0 text).text)) :
    P row (emphasisText text) :=
  hP.substitute (by decide) writes_emphasisRule (hP.strongText h)

end Marks

theorem Woven.tagged {P : List Char → Prop} (hP : Woven P) (name : String)
    (hname : name ∈ tagNames) {a content b : List Char} (ha : P a) (hcontent : P content)
    (hb : P b) : P (a ++ (tagged name content ++ b)) := by
  have hend := hP.closed name hname content b hcontent hb
  have hall := hP.opened name hname a _ ha hend
  rw [tagged_eq]
  simpa using hall

/-- A property of texts alone, without rows. -/
theorem Woven.dressable {P : List Char → Prop} (hP : Woven P) :
    Dressable fun (_ : List Empty) => P where
  nil {row} _ := List.eq_nil_iff_forall_not_mem.mpr fun e => e.elim
  cut {_} hc {row a b} h := ⟨row, [], (List.append_nil row).symm, hP.cut hc a b h⟩
  tagged name hname {_ _ _ _ _ _} ha hcontent hb := by
    have hinline : ∀ name ∈ ["strong", "em"], name ∈ tagNames := by decide
    exact hP.tagged name (hinline name hname) ha hcontent hb

section Texts

variable {P : List Char → Prop} (hP : Woven P) {text : List Char}
include hP

theorem Woven.cutMark {mark a b : List Char} (hmark : IsMark mark) (h : P (a ++ (mark ++ b))) :
    P a ∧ P b := by
  obtain ⟨-, -, -, ha, hb⟩ := @Dressable.cutMark _ _ hP.dressable [] _ hmark _ _ h
  exact ⟨ha, hb⟩

theorem Woven.strongText (h : P (escape (takeSpans 0 0 text).text)) : P (strongText text) :=
  @Dressable.strongText _ _ hP.dressable [] _ h

theorem Woven.emphasisText (h : P (escape (takeSpans 0 0 text).text)) : P (emphasisText text) :=
  @Dressable.emphasisText _ _ hP.dressable [] _ h

end Texts

theorem spanContent_append {rest content : List Char} (h : spanContent? rest = some content) :
    ∃ more, content ≠ [] ∧ '\x60' ∉ content ∧ rest = content ++ '\x60' :: more := by
  have hrest := List.takeWhile_append_dropWhile (p := fun c => !isTick c) (l := rest)
  have hcontent : '\x60' ∉ rest.takeWhile fun c => !isTick c := fun hmem =>
    absurd (List.mem_takeWhile_imp hmem) (by decide)
  unfold spanContent? at h
  split at h
  · cases h
  · next tick more hdrop hne =>
    cases h
    have hhead := List.head?_dropWhile_not (fun c => !isTick c) rest
    rw [hdrop] at hhead hrest
    have htick : tick = '\x60' := by simpa [isTick] using hhead
    subst htick
    exact ⟨more, fun hnil => hne hnil, hcontent, hrest.symm⟩
  · cases h

theorem markerDigits_append {rest digits : List Char} (h : markerDigits? rest = some digits) :
    ∃ more, rest = digits ++ '\x00' :: more := by
  have hrest := List.takeWhile_append_dropWhile (p := Text.isDecimal) (l := rest)
  unfold markerDigits? at h
  split at h
  · cases h
  · next c more hdrop _ =>
    split_ifs at h with hc
    cases h
    rw [hdrop, hc] at hrest
    exact ⟨more, hrest.symm⟩
  · cases h

/-- What is written for a code span. -/
def codeElement (content : List Char) : List Char := tagged "code" (escape content)

theorem inlineChars_eq (text : List Char) :
    inlineChars text =
      putSpans ((takeSpans 0 0 text).spans.map codeElement) 0 (emphasisText text) := rfl

/-- A code span, with the number that its marker has, and the marker. -/
def spanPair (span : List Char × ℕ) : List Char × List Char :=
  ('\x60' :: (span.1 ++ ['\x60']), marker span.2)

/-- A marker, and the element of the span that it stands for. -/
def Fills (spans : List (List Char)) (pair : List Char × List Char) : Prop :=
  ∃ digits, spanAt spans digits = .ok pair.2 ∧ pair.1 = '\x00' :: (digits ++ ['\x00'])

theorem rewrites_takeSpans (text : List Char) : ∀ index skip,
    Text.Rewrites (((takeSpans index skip text).spans.zipIdx index).map spanPair)
      (text.drop skip) (takeSpans index skip text).text := by
  induction text with
  | nil =>
    intro index skip
    cases skip <;> exact .same []
  | cons c rest ih =>
    intro index skip
    cases skip with
    | succ skip => exact ih index skip
    | zero =>
      rw [takeSpans]
      split
      · next content hcontent =>
        split_ifs at hcontent with hc
        obtain rfl : c = '\x60' := by simpa [isTick] using hc
        obtain ⟨more, -, -, rfl⟩ := spanContent_append hcontent
        have hlater := ih (index + 1) (content.length + 1)
        have hdrop : (content ++ '\x60' :: more).drop (content.length + 1) = more := by
          simp [List.drop_append]
        rw [hdrop] at hlater
        have hchange : Text.Rewrites (spanPair (content, index) :: _)
            ((spanPair (content, index)).1 ++ more) (marker index ++ _) := .change [] hlater
        simpa [spanPair] using hchange
      · exact (ih index 0).cons c

theorem exists_rewrites_putSpans {spans : List (List Char)} (text : List Char) :
    ∀ skip out, putSpans spans skip text = .ok out →
      ∃ pairs, Text.Rewrites pairs (text.drop skip) out ∧ ∀ pair ∈ pairs, Fills spans pair := by
  induction text with
  | nil =>
    intro skip out h
    cases skip <;> cases h <;> exact ⟨[], .same [], by simp⟩
  | cons c rest ih =>
    intro skip out h
    cases skip with
    | succ skip => exact ih skip out h
    | zero =>
      rw [putSpans] at h
      split at h
      · next digits hdigits =>
        obtain ⟨span, hspan, h⟩ := Outcome.bind_eq_ok.mp h
        obtain ⟨later, hlater, h⟩ := Outcome.bind_eq_ok.mp h
        cases h
        split_ifs at hdigits with hc
        subst hc
        obtain ⟨more, rfl⟩ := markerDigits_append hdigits
        obtain ⟨pairs, hrest, hall⟩ := ih (digits.length + 1) later hlater
        have hdrop : (digits ++ '\x00' :: more).drop (digits.length + 1) = more := by
          simp [List.drop_append]
        rw [hdrop] at hrest
        have hchange : Text.Rewrites (('\x00' :: (digits ++ ['\x00']), span) :: pairs)
            ('\x00' :: (digits ++ ['\x00']) ++ more) (span ++ later) := .change [] hrest
        exact ⟨_, by simpa using hchange, List.forall_mem_cons.mpr ⟨⟨digits, hspan, rfl⟩, hall⟩⟩
      · obtain ⟨later, hlater, h⟩ := Outcome.bind_eq_ok.mp h
        cases h
        obtain ⟨pairs, hrest, hall⟩ := ih 0 later hlater
        exact ⟨pairs, hrest.cons c, hall⟩

theorem mem_of_spanAt {spans : List (List Char)} {digits span : List Char}
    (h : spanAt spans digits = .ok span) : span ∈ spans := by
  obtain ⟨index, -, h⟩ := Outcome.bind_eq_ok.mp h
  exact List.mem_of_getElem? (Outcome.need_eq_ok.mp h)

theorem splits_spanPair {Q : List Char → Prop} (hQ : Text.Splits Q isGap)
    {content a b : List Char} {index : ℕ} (h : Q (a ++ ((spanPair (content, index)).1 ++ b))) :
    Q a ∧ Q content ∧ Q b := by
  obtain ⟨hbefore, hspan⟩ := (hQ.iff (by decide) a _).mp h
  exact ⟨hbefore, (hQ.iff (c := '\x60') (by decide) content b).mp (by simpa using hspan)⟩

/-- The text without its code spans, and each span. -/
theorem takeSpans_keeps {Q : List Char → Prop} (hQ : Text.Splits Q isGap)
    (hdigits : ∀ n, Q (Nat.toDigits 10 n)) {text : List Char} (h : Q text) :
    Q (takeSpans 0 0 text).text ∧ ∀ span ∈ (takeSpans 0 0 text).spans, Q span := by
  have hrewrites := rewrites_takeSpans text 0 0
  refine ⟨hrewrites.keeps (fun pair hpair a b hold => ?_) [] h, fun span hspan => ?_⟩
  · obtain ⟨⟨content, index⟩, -, rfl⟩ := List.mem_map.mp hpair
    obtain ⟨hbefore, -, hlater⟩ := splits_spanPair hQ hold
    have hinner := (hQ.iff (c := '\x00') (by decide) (Nat.toDigits 10 index) b).mpr
      ⟨hdigits index, hlater⟩
    simpa [spanPair, marker] using (hQ.iff (c := '\x00') (by decide) a _).mpr ⟨hbefore, hinner⟩
  · obtain ⟨index, hindex⟩ := List.mem_iff_getElem?.mp hspan
    have hmember : (span, index) ∈ (takeSpans 0 0 text).spans.zipIdx 0 :=
      List.mk_mem_zipIdx_iff_getElem?.mpr hindex
    obtain ⟨a, b, hin⟩ := hrewrites.exists_of_mem (List.mem_map_of_mem hmember)
    rw [List.drop_zero] at hin
    exact (splits_spanPair hQ (hin ▸ h)).2.1

section Lines

variable {P : List Char → Prop} (hP : Woven P)
include hP

theorem Woven.putSpans {spans : List (List Char)}
    (hspans : ∀ span ∈ spans, ∃ content, P content ∧ span = Doc.tagged "code" content)
    {text out : List Char} (h : P text) (ho : Doc.putSpans spans 0 text = .ok out) : P out := by
  obtain ⟨pairs, hrewrites, hall⟩ := exists_rewrites_putSpans text 0 out ho
  refine hrewrites.keeps (fun pair hpair a b hold => ?_) [] h
  obtain ⟨digits, hspan, hmarker⟩ := hall pair hpair
  obtain ⟨content, hcontent, hnew⟩ := hspans pair.2 (mem_of_spanAt hspan)
  rw [hmarker] at hold
  obtain ⟨hbefore, hrest⟩ := (hP.splits.iff (by decide) a _).mp hold
  obtain ⟨-, hlater⟩ := (hP.splits.iff (c := '\x00') (by decide) digits b).mp (by simpa using hrest)
  rw [hnew]
  exact hP.tagged "code" (by decide) hbefore hcontent hlater

theorem Woven.wrapped {text : List Char} (h : P text) : ∀ line ∈ wrapped text, P line.toList := by
  have hblank : Text.Splits P Text.isBlank := hP.splits.mono isGap_of_isBlank
  intro line hline
  obtain ⟨chars, hchars, rfl⟩ := List.mem_map.mp hline
  rw [String.toList_ofList]
  exact hblank.wrap wrapWidth h chars hchars

theorem Woven.openingLine (name : String) (hname : name ∈ tagNames) : P (opening name) := by
  simpa using hP.opened name hname [] [] hP.splits.nil hP.splits.nil

theorem Woven.closingLine (name : String) (hname : name ∈ tagNames) : P (closing name) := by
  simpa using hP.closed name hname [] [] hP.splits.nil hP.splits.nil

end Lines

section Description

variable {Q P : List Char → Prop} (h : Weaves Q P)
include h

theorem Weaves.inlineChars {text out : List Char} (ht : Q text)
    (ho : Doc.inlineChars text = .ok out) : P out := by
  obtain ⟨hmarked, hspans⟩ := takeSpans_keeps h.source h.digits ht
  have hemphasis := h.woven.emphasisText (h.escape _ hmarked)
  refine h.woven.putSpans (fun span hspan => ?_) hemphasis ho
  obtain ⟨content, hcontent, rfl⟩ := List.mem_map.mp hspan
  exact ⟨_, h.escape content (hspans content hcontent), rfl⟩

theorem Weaves.listItem {item : Line} {lines : List String} (hi : Q item)
    (ho : Doc.listItem item = .ok lines) : ∀ line ∈ lines, P line.toList := by
  obtain ⟨content, hcontent, ho⟩ := Outcome.bind_eq_ok.mp ho
  cases ho
  refine h.woven.wrapped ?_
  have hnil := h.woven.splits.nil
  simpa using h.woven.tagged "li" (by decide) hnil (h.inlineChars hi hcontent) hnil

theorem Weaves.codeLines {lines : List Line} (hl : ∀ line ∈ lines, Q line) :
    ∀ line ∈ Doc.codeLines lines, P line.toList := by
  have hopen := h.woven.openingLine "code" (by decide)
  have hclose := h.woven.closingLine "code" (by decide)
  cases lines with
  | nil => simpa [Doc.codeLines] using ⟨hopen, hclose⟩
  | cons first rest =>
    obtain ⟨hfirst, hrest⟩ := List.forall_mem_cons.mp hl
    have hstart := h.woven.opened "code" (by decide) [] _ h.woven.splits.nil
      (h.escape first hfirst)
    refine List.forall_mem_append.mpr ⟨List.forall_mem_cons.mpr ⟨?_, fun line hline => ?_⟩, ?_⟩
    · simpa [opening] using hstart
    · obtain ⟨source, hsource, rfl⟩ := List.mem_map.mp hline
      simpa using h.escape source (hrest source hsource)
    · simpa [closing] using hclose

theorem Weaves.blockLines {block : Block} {lines : List String} (hb : block.Holds Q)
    (ho : Doc.blockLines block = .ok lines) : ∀ line ∈ lines, P line.toList := by
  have hopen := h.woven.openingLine
  have hclose := h.woven.closingLine
  cases block with
  | paragraph text =>
    obtain ⟨content, hcontent, ho⟩ := Outcome.bind_eq_ok.mp ho
    cases ho
    exact List.forall_mem_append.mpr
      ⟨List.forall_mem_cons.mpr ⟨hopen "p" (by decide),
        h.woven.wrapped (h.inlineChars hb hcontent)⟩,
        by simpa [closing] using hclose "p" (by decide)⟩
  | list items =>
    obtain ⟨each, heach, ho⟩ := Outcome.bind_eq_ok.mp ho
    cases ho
    refine List.forall_mem_append.mpr
      ⟨List.forall_mem_cons.mpr ⟨hopen "ul" (by decide), fun line hline => ?_⟩,
        by simpa [closing] using hclose "ul" (by decide)⟩
    obtain ⟨some, hsome, hline⟩ := List.mem_flatten.mp hline
    obtain ⟨item, hitem, hread⟩ := Outcome.exists_of_mem_mapM heach hsome
    exact h.listItem (hb item hitem) hread line hline
  | code lines =>
    cases ho
    exact List.forall_mem_append.mpr
      ⟨List.forall_mem_cons.mpr ⟨hopen "pre" (by decide), h.codeLines hb⟩,
        by simpa [closing] using hclose "pre" (by decide)⟩

theorem Weaves.descriptionLines {text : String} {lines : List String} (ht : Q text.toList)
    (ho : Doc.descriptionLines text = .ok lines) : ∀ line ∈ lines, P line.toList := by
  obtain ⟨each, heach, ho⟩ := Outcome.bind_eq_ok.mp ho
  cases ho
  intro line hline
  obtain ⟨some, hsome, hline⟩ := List.mem_flatten.mp hline
  obtain ⟨block, hblock, hread⟩ := Outcome.exists_of_mem_mapM heach hsome
  exact h.blockLines (holds_description h.source ht block hblock) hread line hline

/-- The lines of a description have the property that escaping gives its texts. -/
theorem Weaves.renderDescription {text : Tree} {lines : List String}
    (ht : ∀ t, text.text? = some t → Q t.toList) (ho : Doc.renderDescription text = .ok lines) :
    ∀ line ∈ lines, P line.toList := by
  unfold Doc.renderDescription at ho
  split at ho
  · obtain ⟨t, hread, ho⟩ := Outcome.bind_eq_ok.mp ho
    exact h.descriptionLines (ht t (Outcome.need_eq_ok.mp hread)) ho
  · cases ho
    exact fun line hline => absurd hline List.not_mem_nil

end Description

end ApiContract.Doc
