import ApiContract.Proofs.Doc.Grouping
import ApiContract.Proofs.Doc.Spans

/-! # What a comment says

Whoever reads a comment sees none of its tags, and a character in the place of each entity. What is
seen in this way is the description: of the text of a block only marks of emphasis and the ticks
around code are missing, and the words stand in the lines in their order. So whatever looks like a
tag, an entity or the end of a comment in the description is written as entities, and the tags of
the lines are those that the blocks, the emphasis and the code spans have.
-/
namespace ApiContract.Doc

/-- A tag shows nothing, and an entity shows a character. -/
def tokens : List (List Char × List Char) :=
  (tagNames.flatMap fun name => [(opening name, []), (closing name, [])]) ++
    [("&amp;".toList, ['&']), ("&lt;".toList, ['<']), ("&gt;".toList, ['>']),
      ("&#64;".toList, ['@']), ("&#47;".toList, ['/'])]

def tokenRule : Text.Rule := fun _ text =>
  (tokens.find? fun token => token.1.isPrefixOf text).map fun token => (token.1.length, token.2)

/-- What a line shows to its reader. -/
def read (line : List Char) : List Char := Text.substitute tokenRule line

section Lines

variable {a b text content : List Char}

@[simp] theorem read_nil : read [] = [] := rfl

theorem substituteFrom_tokenRule (old b : List Char) (before : Option Char) :
    Text.substituteFrom tokenRule old.length before (old ++ b) = read b := by
  induction old generalizing before with
  | nil => cases b <;> rfl
  | cons c old ih => exact ih (some c)

theorem read_token_append {token : List Char × List Char} (h : token ∈ tokens) (b : List Char) :
    read (token.1 ++ b) = token.2 ++ read b := by
  have hfirst : tokenRule none (token.1 ++ b) = some (token.1.length, token.2) := by
    simp only [tokens, tagNames, List.flatMap_cons, List.flatMap_nil, List.mem_append,
      List.mem_cons, List.not_mem_nil, or_false, or_assoc] at h
    rcases h with rfl | rfl | rfl | rfl | rfl | rfl | rfl | rfl | rfl | rfl | rfl | rfl | rfl |
      rfl | rfl | rfl | rfl | rfl | rfl <;> rfl
  have hne : ∀ token ∈ tokens, token.1 ≠ [] := by decide
  obtain ⟨c, old, hold⟩ := List.exists_cons_of_ne_nil (hne token h)
  rw [hold, List.cons_append] at hfirst ⊢
  rw [read, Text.substitute, Text.substituteFrom, hfirst]
  exact congrArg (token.2 ++ ·) (substituteFrom_tokenRule old b (some c))

theorem read_token {token : List Char × List Char} (h : token ∈ tokens) :
    read token.1 = token.2 := by
  simpa using read_token_append h []

theorem read_plain {c : Char} (hc : isMarkup c = false) (b : List Char) :
    read (c :: b) = c :: read b := by
  have hstarts : ∀ token ∈ tokens, ∃ d more, token.1 = d :: more ∧ isMarkup d = true := by
    have hall : ∀ token ∈ tokens, token.1.head?.any isMarkup = true := by decide
    intro token htoken
    obtain ⟨d, hd, hmarkup⟩ := (Option.any_eq_true _ _).mp (hall token htoken)
    obtain ⟨more, hmore⟩ := List.head?_eq_some_iff.mp hd
    exact ⟨d, more, hmore, hmarkup⟩
  have hnone : tokenRule none (c :: b) = none := by
    refine Option.map_eq_none_iff.mpr (List.find?_eq_none.mpr fun token htoken hfound => ?_)
    obtain ⟨d, more, hmore, hmarkup⟩ := hstarts token htoken
    rw [hmore, List.isPrefixOf_iff_prefix, List.cons_prefix_cons] at hfound
    rw [hfound.1, hc] at hmarkup
    cases hmarkup
  rw [read, Text.substitute, Text.substituteFrom, hnone]
  exact congrArg (c :: ·) (substituteFrom_tokenRule [] b (some c))

/-- Each piece is read on its own. -/
theorem Piece.cases_token (piece : Piece) :
    (∃ c, isMarkup c = false ∧ piece.text = [c]) ∨ ∃ token ∈ tokens, piece.text = token.1 := by
  cases piece with
  | plain c h => exact .inl ⟨c, h, rfl⟩
  | opening name h =>
    refine .inr ⟨(Doc.opening name, []), List.mem_append_left _ ?_, rfl⟩
    exact List.mem_flatMap.mpr ⟨name, h, by simp⟩
  | closing name h =>
    refine .inr ⟨(Doc.closing name, []), List.mem_append_left _ ?_, rfl⟩
    exact List.mem_flatMap.mpr ⟨name, h, by simp⟩
  | entity text h =>
    have hentities : ∀ text ∈ entities, ∃ token ∈ tokens, text.toList = token.1 := by decide
    exact .inr (hentities text h)

theorem Piece.read_append (piece : Piece) (b : List Char) :
    read (piece.text ++ b) = read piece.text ++ read b := by
  rcases piece.cases_token with ⟨c, hc, htext⟩ | ⟨token, htoken, htext⟩
  · rw [htext, List.singleton_append, read_plain hc, read_plain hc, read_nil]
    rfl
  · rw [htext, read_token_append htoken, read_token htoken]

/-- No token begins in marked-up text and ends behind it. -/
theorem IsMarkedUp.read_append (ha : IsMarkedUp a) (b : List Char) :
    read (a ++ b) = read a ++ read b := by
  obtain ⟨pieces, rfl⟩ := ha
  induction pieces with
  | nil => rfl
  | cons piece pieces ih =>
    rw [List.flatMap_cons, List.append_assoc, piece.read_append, ih, piece.read_append,
      List.append_assoc]

theorem read_append_cons {c : Char} (hc : IsBare c) (h : IsMarkedUp (a ++ c :: b)) :
    read (a ++ c :: b) = read a ++ c :: read b := by
  rw [((isMarkedUp_append_iff hc a b).mp h).1.read_append, read_plain hc.1]

theorem read_eq_self (h : ∀ c ∈ text, isMarkup c = false) : read text = text := by
  induction text with
  | nil => rfl
  | cons c text ih =>
    obtain ⟨hc, hrest⟩ := List.forall_mem_cons.mp h
    rw [read_plain hc, ih hrest]

theorem read_tagged_append {name : String} (hname : name ∈ tagNames) (h : IsMarkedUp content)
    (b : List Char) : read (tagged name content ++ b) = read content ++ read b := by
  have htags : (opening name, []) ∈ tokens ∧ (closing name, []) ∈ tokens := by
    have hall : ∀ name ∈ tagNames, (opening name, []) ∈ tokens ∧ (closing name, []) ∈ tokens := by
      decide
    exact hall name hname
  have hopen := read_token_append htags.1 (content ++ (closing name ++ b))
  have hclose := read_token_append htags.2 b
  simp only [List.nil_append] at hopen hclose
  rw [h.read_append, hclose] at hopen
  rw [tagged_eq, List.append_assoc, List.append_assoc, hopen]

theorem IsMarkedUp.not_mem_read {c : Char} (hc : ∀ token ∈ tokens, c ∉ token.2)
    (h : IsMarkedUp text) (htext : c ∉ text) : c ∉ read text := by
  obtain ⟨pieces, rfl⟩ := h
  induction pieces with
  | nil => simp
  | cons piece pieces ih =>
    rw [List.flatMap_cons, List.mem_append, not_or] at htext
    obtain ⟨hpiece, hrest⟩ := htext
    rw [List.flatMap_cons, piece.read_append, List.mem_append, not_or]
    refine ⟨?_, ih hrest⟩
    rcases piece.cases_token with ⟨d, hd, htext⟩ | ⟨token, htoken, htext⟩
    · rw [htext] at hpiece ⊢
      rwa [read_plain hd, read_nil]
    · rw [htext, read_token htoken]
      exact hc token htoken

theorem read_escapeChar (c : Char) : read (escapeChar c) = [c] := by
  unfold escapeChar
  split_ifs with h1 h2 h3 h4
  · rw [h1]; rfl
  · rw [h2]; rfl
  · rw [h3]; rfl
  · rw [h4]; rfl
  · rw [read_plain (by simp [isMarkup, h1, h2, h3, h4]), read_nil]

/-- A text that is escaped shows the text. -/
theorem read_escape (text : List Char) : read (escape text) = text := by
  have hchars : IsMarkedUp (text.flatMap escapeChar) ∧ read (text.flatMap escapeChar) = text := by
    induction text with
    | nil => exact ⟨.nil, rfl⟩
    | cons c rest ih =>
      obtain ⟨hmarked, hread⟩ := ih
      rw [List.flatMap_cons, (isMarkedUp_escapeChar c).read_append, read_escapeChar, hread]
      exact ⟨(isMarkedUp_escapeChar c).append hmarked, rfl⟩
  refine (Text.replacePair_keeps (P := fun some => IsMarkedUp some ∧ read some = text)
    (fun a b h => ?_) _ [] hchars).2
  obtain ⟨hmarked, hread⟩ := h
  obtain ⟨ha, hslash⟩ := (isMarkedUp_append_iff (by decide) a _).mp hmarked
  have hb := hslash.tail (by decide)
  have hstar := isMarkedUp_piece (.plain '*' (by decide))
  have hentity := isMarkedUp_piece (.entity "&#47;" (by decide))
  have hpair := hstar.append hentity
  refine ⟨ha.append (hpair.append hb), ?_⟩
  rw [ha.read_append, read_plain (by decide), read_plain (by decide)] at hread
  rw [ha.read_append, ← hread]
  exact congrArg (read a ++ ·) (hpair.read_append b)

end Lines

/-- A mark of emphasis. -/
def isStress (c : Char) : Bool := c == '*' || c == '_'

/-- The text without marks of emphasis. -/
def unstressed (text : List Char) : List Char := text.filter fun c => !isStress c

/-- The text without marks of emphasis and without ticks. -/
def unmarked (text : List Char) : List Char := text.filter fun c => !(isStress c || isTick c)

/-- What is shown for a text: its code spans are taken out, some marks of emphasis get lost, and
spans come back for markers that have their numbers. If the text has no marker of its own, all of
it is shown but marks of emphasis and ticks. -/
structure Tells (text said : List Char) : Prop where
  filled : ∃ plain pairs, unstressed plain = unstressed (takeSpans 0 0 text).text ∧
    Text.Rewrites pairs plain said ∧ ∀ pair ∈ pairs, Fills (takeSpans 0 0 text).spans pair
  kept : '\x00' ∉ text → unmarked said = unmarked text

section Inline

variable {spans : List (List Char)} {text out plain said marked : List Char}
  {pairs : List (List Char × List Char)}

theorem unstressed_append (a b : List Char) : unstressed (a ++ b) = unstressed a ++ unstressed b :=
  List.filter_append ..

theorem unmarked_append (a b : List Char) : unmarked (a ++ b) = unmarked a ++ unmarked b :=
  List.filter_append ..

/-- What emphasis makes of a text shows all characters but marks of emphasis. -/
theorem dressable_read :
    Dressable fun row text => IsMarkedUp text ∧ unstressed (read text) = row where
  nil h := h.2.symm
  cut {c} hc {row a b} h := by
    obtain ⟨hmarked, rfl⟩ := h
    have hbare : IsBare c := by rcases hc with rfl | rfl <;> decide
    have hstress : isStress c = true := by rcases hc with rfl | rfl <;> rfl
    obtain ⟨ha, hb⟩ := (isMarkedUp_append_iff hbare a b).mp hmarked
    refine ⟨_, _, ?_, ⟨ha, rfl⟩, hb, rfl⟩
    rw [read_append_cons hbare hmarked, unstressed_append]
    simp [unstressed, hstress]
  tagged name hname {x y z a content b} ha hcontent hb := by
    have hinline : ∀ name ∈ ["strong", "em"], name ∈ tagNames := by decide
    have hmember := hinline name hname
    obtain ⟨ha, rfl⟩ := ha
    obtain ⟨hcontent, rfl⟩ := hcontent
    obtain ⟨hb, rfl⟩ := hb
    refine ⟨woven_isMarkedUp.tagged name hmember ha hcontent hb, ?_⟩
    rw [ha.read_append, read_tagged_append hmember hcontent, unstressed_append, unstressed_append]

theorem spanAt_map {f : List Char → List Char} {digits new : List Char}
    (h : spanAt (spans.map f) digits = .ok new) :
    ∃ span, spanAt spans digits = .ok span ∧ new = f span := by
  obtain ⟨index, hindex, h⟩ := Outcome.bind_eq_ok.mp h
  have hread := Outcome.need_eq_ok.mp h
  rw [List.getElem?_map] at hread
  obtain ⟨span, hspan, rfl⟩ := Option.map_eq_some_iff.mp hread
  exact ⟨span, Outcome.bind_eq_ok.mpr ⟨index, hindex, Outcome.need_eq_ok.mpr hspan⟩, rfl⟩

theorem isMarkup_of_isDecimal {c : Char} (h : Text.isDecimal c = true) :
    isMarkup c = false ∧ isStress c = false := by
  have hnone : ['<', '>', '&', '@', '*', '_'].any Text.isDecimal = false := by decide
  have hc : c ∉ ['<', '>', '&', '@', '*', '_'] := fun hmem => by
    rw [List.any_eq_true.mpr ⟨c, hmem, h⟩] at hnone
    cases hnone
  simp only [List.mem_cons, List.not_mem_nil, or_false, not_or] at hc
  simp [isMarkup, isStress, hc]

/-- The digits of a marker that is filled are digits. -/
theorem isDecimal_of_spanAt {digits span : List Char} (h : spanAt spans digits = .ok span) :
    ∀ c ∈ digits, Text.isDecimal c = true := by
  obtain ⟨index, hindex, -⟩ := Outcome.bind_eq_ok.mp h
  exact Text.isDecimal_of_numeral? (Outcome.need_eq_ok.mp hindex)

/-- Code elements that are put in the place of markers show their spans. -/
theorem exists_rewrites_read (h : Text.Rewrites pairs text out)
    (hpairs : ∀ pair ∈ pairs, Fills (spans.map codeElement) pair) (htext : IsMarkedUp text) :
    ∃ shown, Text.Rewrites shown (read text) (read out) ∧ ∀ pair ∈ shown, Fills spans pair := by
  induction h with
  | same text => exact ⟨[], .same _, by simp⟩
  | @change old new rest last pairs before later ih =>
    obtain ⟨⟨digits, hspan, hold⟩, hlater⟩ := List.forall_mem_cons.mp hpairs
    obtain rfl : old = '\x00' :: (digits ++ ['\x00']) := hold
    obtain ⟨content, hcontent, hnew⟩ := spanAt_map hspan
    obtain rfl : new = codeElement content := hnew
    have hend : IsBare '\x00' := by decide
    have hwhole : before ++ ('\x00' :: (digits ++ ['\x00']) ++ rest) =
        before ++ '\x00' :: (digits ++ '\x00' :: rest) := by simp
    rw [hwhole] at htext ⊢
    obtain ⟨hbefore, hbehind⟩ := (isMarkedUp_append_iff hend _ _).mp htext
    obtain ⟨-, hrest⟩ := (isMarkedUp_append_iff hend _ _).mp hbehind
    obtain ⟨shown, hshown, hall⟩ := ih hlater hrest
    have hdigits : read digits = digits := read_eq_self fun c hc =>
      (isMarkup_of_isDecimal (isDecimal_of_spanAt hspan c hc)).1
    have hchange : Text.Rewrites (('\x00' :: (digits ++ ['\x00']), content) :: shown)
        (read before ++ ('\x00' :: (digits ++ ['\x00']) ++ read rest))
        (read before ++ (content ++ read last)) := .change _ hshown
    rw [read_append_cons hend htext, read_append_cons hend hbehind, hdigits, hbefore.read_append,
      codeElement, read_tagged_append (by decide) (isMarkedUp_escape content), read_escape]
    exact ⟨_, by simpa using hchange, List.forall_mem_cons.mpr ⟨⟨digits, hcontent, rfl⟩, hall⟩⟩

/-- A text falls apart at the first of its characters that is this one. -/
theorem append_cons_inj {c : Char} {a b x y : List Char} (ha : c ∉ a) (hx : c ∉ x)
    (h : a ++ c :: b = x ++ c :: y) : a = x ∧ b = y := by
  rcases Text.append_cons_eq_append h with ⟨more, rfl, -⟩ | ⟨more, rfl, hmore⟩
  · exact absurd (by simp) hx
  · cases more with
    | nil => exact ⟨by simp, (List.cons.inj hmore).2.symm⟩
    | cons d more =>
      obtain ⟨rfl, -⟩ := List.cons.inj hmore
      exact absurd (by simp) ha

theorem mem_unstressed {c : Char} (hc : isStress c = false) {text : List Char} :
    c ∈ unstressed text ↔ c ∈ text := by
  simp [unstressed, hc]

theorem unmarked_eq (text : List Char) :
    unmarked text = (unstressed text).filter fun c => !isTick c := by
  simp only [unmarked, unstressed, List.filter_filter, Bool.not_or, Bool.and_comm]

theorem unstressed_marker {digits : List Char} (h : ∀ c ∈ digits, Text.isDecimal c = true)
    (a b : List Char) : unstressed (a ++ ('\x00' :: (digits ++ ['\x00']) ++ b)) =
      unstressed a ++ '\x00' :: (digits ++ '\x00' :: unstressed b) := by
  have hdigits : unstressed digits = digits :=
    List.filter_eq_self.mpr fun c hc => by simp [(isMarkup_of_isDecimal (h c hc)).2]
  have hend : unstressed ['\x00'] = ['\x00'] := rfl
  have hparts : a ++ ('\x00' :: (digits ++ ['\x00']) ++ b) =
      a ++ (['\x00'] ++ (digits ++ (['\x00'] ++ b))) := by simp
  rw [hparts]
  simp only [unstressed_append, hdigits, hend]
  rfl

/-- The markers of a text without a marker of its own are filled with its spans, each with that of
its number. The induction is on the markers that are filled, with the spans that are left. -/
theorem unmarked_of_rewrites {all : List (List Char)} (h : Text.Rewrites pairs plain said)
    (hpairs : ∀ pair ∈ pairs, Fills all pair) (hsaid : '\x00' ∉ said) :
    ∀ {index : ℕ} {spans : List (List Char)} {text marked : List Char},
      all.drop index = spans → Text.Rewrites ((spans.zipIdx index).map spanPair) text marked →
        '\x00' ∉ text → unstressed plain = unstressed marked → unmarked said = unmarked text := by
  have hend : isStress '\x00' = false := rfl
  induction h with
  | same plain =>
    intro index spans text marked hdrop htext hplain heq
    cases spans with
    | nil =>
      cases htext
      rw [unmarked_eq, unmarked_eq, heq]
    | cons span spans =>
      obtain _ | ⟨before, hlater⟩ := htext
      have hmem : '\x00' ∈ plain := by
        rw [← mem_unstressed hend, heq, mem_unstressed hend]
        simp [marker]
      exact absurd hmem hsaid
  | @change old new rest last pairs before later ih =>
    intro index spans text marked hdrop htext hplain heq
    obtain ⟨⟨digits, hspan, hold⟩, hlater⟩ := List.forall_mem_cons.mp hpairs
    obtain rfl : old = '\x00' :: (digits ++ ['\x00']) := hold
    have hdigits := isDecimal_of_spanAt hspan
    rw [unstressed_marker hdigits] at heq
    cases spans with
    | nil =>
      cases htext
      have hmem : '\x00' ∈ unstressed text := heq ▸ by simp
      exact absurd ((mem_unstressed hend).mp hmem) hplain
    | cons span spans =>
      obtain _ | @⟨_, _, behind, marked, _, front, htext⟩ := htext
      have hnumber : ∀ c ∈ Nat.toDigits 10 index, Text.isDecimal c = true := fun c hc =>
        Text.isDecimal_of_isDigit (Nat.isDigit_of_mem_toDigits (by decide) (by decide) hc)
      have hendless : ∀ {digits : List Char}, (∀ c ∈ digits, Text.isDecimal c = true) →
          '\x00' ∉ digits := fun h hmem => absurd (h _ hmem) (by decide)
      simp only [List.mem_append, not_or] at hsaid hplain
      have hmarked : unstressed (front ++ (marker index ++ marked)) = _ :=
        unstressed_marker hnumber front marked
      rw [hmarked] at heq
      obtain ⟨hfront, heq⟩ := append_cons_inj (mt (mem_unstressed hend).mp hsaid.1)
        (mt (mem_unstressed hend).mp hplain.1) heq
      obtain ⟨rfl, hbehind⟩ := append_cons_inj (hendless hdigits) (hendless hnumber) heq
      have hread : all[index]? = some span := by
        rw [← Nat.add_zero index, ← List.getElem?_drop, hdrop]
        rfl
      obtain rfl : span = new :=
        Option.some.inj (hread.symm.trans (spanAt_toDigits.mp hspan).2)
      have hrest := ih hlater hsaid.2.2 (by rw [← List.tail_drop, hdrop, List.tail_cons]) htext
        hplain.2.2 hbehind
      have hticks : unmarked ('\x60' :: (span ++ ['\x60'])) = unmarked span := by
        have htick : unmarked ['\x60'] = [] := rfl
        rw [← List.singleton_append, unmarked_append, unmarked_append, htick, List.append_nil]
        rfl
      simp only [unmarked_append, hticks, hrest, unmarked_eq before, unmarked_eq front, hfront]

/-- What becomes of a text within a line shows the text. -/
theorem tells_inlineChars (h : inlineChars text = .ok out) : Tells text (read out) := by
  obtain ⟨pairs, hpairs, hfills⟩ := exists_rewrites_putSpans _ 0 out h
  have hescaped : unstressed (read (escape (takeSpans 0 0 text).text)) =
      unstressed (takeSpans 0 0 text).text := by rw [read_escape]
  obtain ⟨hmarked, hplain⟩ := dressable_read.emphasisText ⟨isMarkedUp_escape _, hescaped⟩
  obtain ⟨shown, hshown, hall⟩ := exists_rewrites_read hpairs hfills hmarked
  refine ⟨⟨_, shown, hplain, hshown, hall⟩, fun hend => ?_⟩
  have hfree := (inOrder_inlineChars hend h).2.1
  have hout : '\x00' ∉ read out :=
    (weaves_isMarkedUp.inlineChars trivial h).not_mem_read (by decide) hfree
  have hspans := rewrites_takeSpans text 0 0
  exact unmarked_of_rewrites hshown hall hout List.drop_zero hspans hend hplain

end Inline

/-- The words that lines show. -/
def shownWords (lines : List String) : List (List Char) :=
  lines.flatMap fun line => Text.words (read line.toList)

/-- The lines of a block show its text. In prose it is the words that are shown, wherever the lines
end, and in code the lines are shown as they are. -/
def Block.Shows : Block → List String → Prop
  | paragraph text, lines => ∃ said, Tells text said ∧ shownWords lines = Text.words said
  | list items, lines =>
    ∃ saids, List.Forall₂ Tells items saids ∧ shownWords lines = saids.flatMap Text.words
  | code source, lines =>
    (lines.map fun line => read line.toList).filter (· ≠ []) = source.filter (· ≠ [])

section Shown

variable {text : List Char} {lines : List String}

theorem shownWords_append (a b : List String) :
    shownWords (a ++ b) = shownWords a ++ shownWords b :=
  List.flatMap_append

/-- The words that a text shows are those that its words show. -/
theorem IsMarkedUp.words_read (h : IsMarkedUp text) :
    Text.words (read text) = (Text.words text).flatMap fun word => Text.words (read word) := by
  induction text using Text.words_induction with
  | solid text hsolid =>
    by_cases hne : text = []
    · rw [hne]
      rfl
    · simp [Text.words_solid hne hsolid]
  | cut a c b hc iha ihb =>
    have hbare := isBare_of_isGap (isGap_of_isBlank c hc)
    obtain ⟨ha, hb⟩ := (isMarkedUp_append_iff hbare a b).mp h
    rw [read_append_cons hbare h, Text.words_append_cons hc, Text.words_append_cons hc, iha ha,
      ihb hb, List.flatMap_append]

theorem shownWords_wrapped (h : IsMarkedUp text) :
    shownWords (wrapped text) = Text.words (read text) := by
  have hlines : ∀ line ∈ Text.wrap wrapWidth text, IsMarkedUp line := fun line hline => by
    have hmarked := woven_isMarkedUp.wrapped h _ (List.mem_map_of_mem hline)
    rwa [String.toList_ofList] at hmarked
  rw [h.words_read, ← Text.words_wrap wrapWidth text, List.flatMap_assoc, shownWords, wrapped,
    List.flatMap_map]
  refine List.flatMap_congr fun line hline => ?_
  rw [String.toList_ofList, (hlines line hline).words_read]

theorem shows_listItem {item : Line} (h : listItem item = .ok lines) :
    ∃ said, Tells item said ∧ shownWords lines = Text.words said := by
  obtain ⟨content, hcontent, h⟩ := Outcome.bind_eq_ok.mp h
  cases h
  have hmarked := weaves_isMarkedUp.inlineChars trivial hcontent
  have hitem := woven_isMarkedUp.tagged "li" (by decide) .nil hmarked .nil
  have hread : read (tagged "li" content ++ []) = read content ++ read [] :=
    read_tagged_append (by decide) hmarked []
  rw [List.nil_append, List.append_nil] at hitem
  rw [List.append_nil, read_nil, List.append_nil] at hread
  exact ⟨_, tells_inlineChars hcontent, by rw [shownWords_wrapped hitem, hread]⟩

theorem shows_listItems {items : List Line} {each : List (List String)}
    (h : List.Forall₂ (fun item lines => listItem item = .ok lines) items each) :
    ∃ saids, List.Forall₂ Tells items saids ∧
      shownWords each.flatten = saids.flatMap Text.words := by
  induction h with
  | nil => exact ⟨[], .nil, rfl⟩
  | cons hitem _ ih =>
    obtain ⟨said, htells, hwords⟩ := shows_listItem hitem
    obtain ⟨saids, hall, hrest⟩ := ih
    exact ⟨said :: saids, .cons htells hall, by
      rw [List.flatten_cons, shownWords_append, hwords, hrest, List.flatMap_cons]⟩

/-- A line that is a tag shows nothing. -/
theorem shownWords_tagLines (content : List String) {first last : String}
    (hfirst : read first.toList = []) (hlast : read last.toList = []) :
    shownWords (first :: content ++ [last]) = shownWords content := by
  simp [shownWords, hfirst, hlast]

theorem shows_codeLines (source : List Line) :
    Block.Shows (.code source) ("<pre>" :: codeLines source ++ ["</pre>"]) := by
  have hpre : read "<pre>".toList = [] ∧ read "</pre>".toList = [] := ⟨rfl, rfl⟩
  have hcode : read "</code>".toList = [] := rfl
  cases source with
  | nil => rfl
  | cons first rest =>
    have htoken : ("<code>".toList, []) ∈ tokens := by decide
    have hopen := read_token_append htoken (escape first)
    simp only [List.nil_append, read_escape] at hopen
    simp only [Block.Shows, codeLines, List.cons_append, List.map_cons, List.map_append,
      List.map_nil, List.map_map, Function.comp_def, String.toList_append, String.toList_ofList,
      read_escape, hopen, hpre, hcode, List.map_id']
    simp [List.filter_cons, List.filter_append]

theorem shows_blockLines {block : Block} (h : blockLines block = .ok lines) :
    block.Shows lines := by
  cases block with
  | paragraph text =>
    obtain ⟨content, hcontent, h⟩ := Outcome.bind_eq_ok.mp h
    cases h
    have hmarked := weaves_isMarkedUp.inlineChars trivial hcontent
    exact ⟨_, tells_inlineChars hcontent,
      (shownWords_tagLines _ rfl rfl).trans (shownWords_wrapped hmarked)⟩
  | list items =>
    obtain ⟨each, heach, h⟩ := Outcome.bind_eq_ok.mp h
    cases h
    obtain ⟨saids, htells, hwords⟩ := shows_listItems (Outcome.forall₂_of_mapM heach)
    exact ⟨saids, htells, (shownWords_tagLines _ rfl rfl).trans hwords⟩
  | code source =>
    cases h
    exact shows_codeLines source

/-- The lines of a description are those of its blocks. -/
theorem shows_renderDescription {description : Tree} (h : renderDescription description = .ok lines)
    {t : String} (ht : description.text? = some t) :
    ∃ shown, lines = shown.flatten ∧
      List.Forall₂ Block.Shows (blocks (linesOf t.toList)) shown := by
  unfold renderDescription at h
  split at h
  · obtain ⟨t', hread, h⟩ := Outcome.bind_eq_ok.mp h
    obtain rfl : t = t' := Option.some.inj (ht.symm.trans (Outcome.need_eq_ok.mp hread))
    obtain ⟨shown, hshown, h⟩ := Outcome.bind_eq_ok.mp h
    cases h
    exact ⟨shown, rfl, (Outcome.forall₂_of_mapM hshown).imp fun _ _ => shows_blockLines⟩
  · next hempty =>
    cases h
    obtain rfl : t = "" := by
      cases description with
      | scalar value =>
        cases value <;> cases ht
        simpa [Tree.isTruthy, Scalar.isTruthy] using hempty
      | _ => cases ht
    have hnone : blocks (linesOf []) = [] := by
      have hblank : isBlankLine [] = true := rfl
      rw [show linesOf [] = [[]] from rfl, blocks, if_pos hblank, blocks]
    exact ⟨[], rfl, by rw [String.toList_empty, hnone]; exact .nil⟩

end Shown

/-- Whatever a description says, its lines hold no markup but tags, each whole on its line, and
entities. None has an at sign or ends the comment. The lines show the blocks of the description in
their order, so that all tags are its own and whatever the description has of them it has as
entities. -/
theorem description_isMarkedUp {text : Tree} {lines : List String}
    (h : renderDescription text = .ok lines) :
    (∀ line ∈ lines,
      IsMarkedUp line.toList ∧ '@' ∉ line.toList ∧ ¬['*', '/'] <:+: line.toList) ∧
    ∀ t, text.text? = some t → ∃ shown, lines = shown.flatten ∧
      List.Forall₂ Block.Shows (blocks (linesOf t.toList)) shown := by
  refine ⟨fun line hline => ?_, fun t ht => shows_renderDescription h ht⟩
  have hmarked := weaves_isMarkedUp.renderDescription (fun _ _ => trivial) h line hline
  exact ⟨hmarked, hmarked.at_not_mem, (noEnd_description h line hline).terminator_absent⟩

/-- Tags, an entity, an at sign and ends of comments, one of them within a code span and one whose
star becomes a tag. -/
theorem description_isMarkedUp_hostile :
    renderDescription (.text "a <b> **/ @see `*/ <i>` **&lt;**") =
        .ok ["<p>", "a &lt;b&gt; <strong>&#47; &#64;see <code>*&#47; &lt;i&gt;</code>",
          "</strong>&amp;lt;**", "</p>"] ∧
      (∀ line ∈ ["<p>", "a &lt;b&gt; <strong>&#47; &#64;see <code>*&#47; &lt;i&gt;</code>",
          "</strong>&amp;lt;**", "</p>"],
        IsMarkedUp line.toList ∧ '@' ∉ line.toList ∧ ¬['*', '/'] <:+: line.toList) ∧
      ∃ shown, ["<p>", "a &lt;b&gt; <strong>&#47; &#64;see <code>*&#47; &lt;i&gt;</code>",
          "</strong>&amp;lt;**", "</p>"] = List.flatten shown ∧
        List.Forall₂ Block.Shows
          (blocks (linesOf "a <b> **/ @see `*/ <i>` **&lt;**".toList)) shown := by
  have hrun : (renderDescription (.text "a <b> **/ @see `*/ <i>` **&lt;**")).toOption.map id =
      some ["<p>", "a &lt;b&gt; <strong>&#47; &#64;see <code>*&#47; &lt;i&gt;</code>",
        "</strong>&amp;lt;**", "</p>"] := by
    decide +kernel
  obtain ⟨lines, hlines, rfl⟩ := Outcome.exists_of_map_toOption hrun
  obtain ⟨hplain, hshown⟩ := description_isMarkedUp hlines
  exact ⟨hlines, hplain, hshown _ rfl⟩

end ApiContract.Doc
