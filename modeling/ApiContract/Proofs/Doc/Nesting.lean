import ApiContract.Proofs.Doc.Tags
import ApiContract.Proofs.Text.Digits

/-! # How emphasis and code nest

Each pass over a text writes elements of one name. Strong emphasis finds no tags in the text, and
code comes back where a marker kept its place, so neither of them crosses anything. Plain emphasis
is looked for in a text that has strong elements already: it is nested with them exactly if what
it is written around has whole strong elements only.
-/
namespace ApiContract.Doc

/-- The second text is an element around marked-up text. Where the first text stands, the text
before it and behind it is marked up, and the tags in between are those within the element. -/
def Surrounds (name : String) (pair : List Char × List Char) : Prop :=
  ∃ content, pair.2 = tagged name content ∧ ∀ a b, IsMarkedUp (a ++ (pair.1 ++ b)) →
    (IsMarkedUp a ∧ IsMarkedUp content ∧ IsMarkedUp b) ∧
      tagsOf (a ++ (pair.1 ++ b)) = tagsOf a ++ (tagsOf content ++ tagsOf b)

/-- What a pass does to the tags of a text that has none of the name: it adds the elements. -/
structure Adds (name : String) (elements : List (List Char)) (text out : List Char) : Prop where
  nested : Nested (tagsOf out) ↔ (∀ e ∈ elements, Nested (tagsOf e)) ∧ Nested (tagsOf text)
  own : (tagsOf out).filter (·.name = name) =
    (List.replicate elements.length (element name [])).flatten
  other : ∀ other, other ≠ name →
    (tagsOf out).filter (·.name = other) = (tagsOf text).filter (·.name = other)
  inside : ∀ e ∈ elements, ∃ inner, tagsOf e = element name inner ∧ inner <:+: tagsOf text

section Passes

variable {name : String} {pair : List Char × List Char} {pairs : List (List Char × List Char)}
  {text out : List Char}

/-- A pass that writes elements around parts of the text writes their tags around tags. -/
theorem exists_rewrites_tagsOf (hname : name ∈ tagNames) (h : Text.Rewrites pairs text out)
    (hpairs : ∀ pair ∈ pairs, Surrounds name pair) (htext : IsMarkedUp text) :
    ∃ contents : List (List Tag),
      Text.Rewrites (contents.map (enclosed name)) (tagsOf text) (tagsOf out) ∧
        contents.map (element name) = pairs.map fun pair => tagsOf pair.2 := by
  induction h with
  | same text => exact ⟨[], .same _, rfl⟩
  | @change old new rest last pairs before later ih =>
    obtain ⟨⟨content, hnew, hold⟩, hlater⟩ := List.forall_mem_cons.mp hpairs
    obtain rfl : new = tagged name content := hnew
    obtain ⟨⟨hbefore, hcontent, hrest⟩, htags⟩ := hold before rest htext
    obtain ⟨contents, hrewrites, hcontents⟩ := ih hlater hrest
    have htagged := tagsOf_tagged_append hname hcontent
    have halone : tagsOf (tagged name content) = element name (tagsOf content) := by
      simpa [tagsOf] using htagged []
    refine ⟨tagsOf content :: contents, ?_, ?_⟩
    · simp only [] at htags
      rw [htags, hbefore.tagsOf_append, htagged]
      exact .change _ hrewrites
    · rw [List.map_cons, List.map_cons, hcontents, halone]

theorem adds_of_rewrites (hname : name ∈ tagNames) (h : Text.Rewrites pairs text out)
    (hpairs : ∀ pair ∈ pairs, Surrounds name pair) (htext : IsMarkedUp text)
    (hfree : (tagsOf text).filter (·.name = name) = []) :
    Adds name (pairs.map Prod.snd) text out := by
  obtain ⟨contents, hrewrites, hcontents⟩ := exists_rewrites_tagsOf hname h hpairs htext
  have htags : ∀ tag ∈ tagsOf text, tag.name ≠ name := by simpa using hfree
  have hlength : contents.length = pairs.length := by simpa using congrArg List.length hcontents
  have helements : ∀ p : List Tag → Prop,
      (∀ inner ∈ contents, p (element name inner)) ↔
        ∀ e ∈ pairs.map Prod.snd, p (tagsOf e) := fun p => by
    rw [← List.forall_mem_map, hcontents, List.forall_mem_map, List.forall_mem_map]
  obtain ⟨hown, hother⟩ := filter_rewritten hrewrites htags
  have hinside : ∀ inner ∈ contents, inner <:+: tagsOf text := fun inner hinner => by
    obtain ⟨a, b, hin⟩ := hrewrites.exists_of_mem (List.mem_map_of_mem hinner)
    exact ⟨a, b, by simpa [enclosed] using hin.symm⟩
  refine ⟨?_, ?_, hother, ?_⟩
  · rw [nested_rewritten_iff hrewrites htags, helements]
  · rw [hown, hlength, List.length_map]
  · refine (helements fun tags => ∃ inner, tags = element name inner ∧ inner <:+: tagsOf text).mp ?_
    exact fun inner hinner => ⟨inner, rfl, hinside inner hinner⟩

/-- A mark is in no tag. -/
theorem Dresses.surrounds (h : Dresses name pair) : Surrounds name pair := by
  obtain ⟨mark, content, hmark, rfl⟩ := h
  refine ⟨content, rfl, fun a b htext => ?_⟩
  have hmarkless : '<' ∉ mark := fun hmem => absurd (hmark.2 '<' hmem) (by decide)
  have hwhole : IsMarkedUp (a ++ (mark ++ (content ++ (mark ++ b)))) := by simpa using htext
  obtain ⟨ha, hrest⟩ := woven_isMarkedUp.cutMark hmark hwhole
  obtain ⟨hcontent, hb⟩ := woven_isMarkedUp.cutMark hmark hrest
  refine ⟨⟨ha, hcontent, hb⟩, ?_⟩
  have htags := ha.tagsOf_append (mark ++ (content ++ (mark ++ b)))
  rw [tagsOf_append_of_not_mem hmarkless, hcontent.tagsOf_append,
    tagsOf_append_of_not_mem hmarkless] at htags
  simpa using htags

/-- A marker is no part of a tag, and in the code that comes in its place there is none. -/
theorem Fills.surrounds {contents : List (List Char)} (h : Fills (contents.map codeElement) pair) :
    Surrounds "code" pair := by
  obtain ⟨digits, hspan, hmarker⟩ := h
  obtain ⟨content, -, hcode⟩ := List.mem_map.mp (mem_of_spanAt hspan)
  obtain ⟨index, hindex, -⟩ := Outcome.bind_eq_ok.mp hspan
  have hdecimal := Text.isDecimal_of_numeral? (Outcome.need_eq_ok.mp hindex)
  have htagless : '<' ∉ pair.1 := by
    have hdigits : '<' ∉ digits := fun hmem => absurd (hdecimal '<' hmem) (by decide)
    simpa [hmarker] using hdigits
  refine ⟨escape content, hcode.symm, fun a b htext => ?_⟩
  have hsplits := woven_isMarkedUp.splits
  rw [hmarker] at htext
  obtain ⟨ha, hrest⟩ := (hsplits.iff (by decide) a _).mp htext
  obtain ⟨-, hb⟩ := (hsplits.iff (c := '\x00') (by decide) digits b).mp (by simpa using hrest)
  refine ⟨⟨ha, isMarkedUp_escape content, hb⟩, ?_⟩
  rw [ha.tagsOf_append, tagsOf_append_of_not_mem htagless, tagsOf_escape, List.nil_append]

theorem tagsOf_codeElement (content : List Char) :
    tagsOf (codeElement content) = element "code" [] := by
  have hcode : tagsOf (tagged "code" (escape content) ++ []) = _ :=
    tagsOf_tagged_append (by decide) (isMarkedUp_escape content) []
  simpa [codeElement, tagsOf_escape, tagsOf] using hcode

theorem adds_substitute (hname : name ∈ tagNames) {rule : Text.Rule}
    (hrule : Text.Writes (Dresses name) rule) (htext : IsMarkedUp text)
    (hfree : (tagsOf text).filter (·.name = name) = []) :
    Adds name (Text.written rule text) text (Text.substitute rule text) := by
  obtain ⟨pairs, hrewrites, hall, hwritten⟩ := Text.exists_rewrites_substitute hrule text
  rw [← hwritten]
  exact adds_of_rewrites hname hrewrites (fun pair hpair => (hall pair hpair).surrounds) htext hfree

end Passes

section Text

variable (text : List Char)

theorem adds_strongText :
    Adds "strong" (Text.written strongRule (escape (takeSpans 0 0 text).text))
      (escape (takeSpans 0 0 text).text) (strongText text) :=
  adds_substitute (by decide) writes_strongRule (isMarkedUp_escape _) (by simp [tagsOf_escape])

theorem adds_emphasisText :
    Adds "em" (Text.written emphasisRule (strongText text)) (strongText text)
      (emphasisText text) := by
  refine adds_substitute (by decide) writes_emphasisRule ?_ ?_
  · exact woven_isMarkedUp.strongText (isMarkedUp_escape _)
  · rw [(adds_strongText text).other "em" (by decide), tagsOf_escape, List.filter_nil]

theorem isMarkedUp_emphasisText : IsMarkedUp (emphasisText text) :=
  woven_isMarkedUp.emphasisText (isMarkedUp_escape _)

theorem exists_adds_code {text out : List Char} (h : inlineChars text = .ok out) :
    ∃ elements, Adds "code" elements (emphasisText text) out ∧
      ∀ e ∈ elements, ∃ content, e = codeElement content := by
  rw [inlineChars_eq] at h
  obtain ⟨pairs, hrewrites, hall⟩ := exists_rewrites_putSpans _ 0 out h
  refine ⟨_, adds_of_rewrites (by decide) hrewrites (fun pair hpair => (hall pair hpair).surrounds)
    (isMarkedUp_emphasisText text) ?_, List.forall_mem_map.mpr fun pair hpair => ?_⟩
  · rw [(adds_emphasisText text).other "code" (by decide),
      (adds_strongText text).other "code" (by decide), tagsOf_escape, List.filter_nil]
  · obtain ⟨digits, hspan, -⟩ := hall pair hpair
    obtain ⟨content, -, hcode⟩ := List.mem_map.mp (mem_of_spanAt hspan)
    exact ⟨content, hcode.symm⟩

end Text

/-- Where there are no tags, whatever a pass writes is nested. -/
theorem Adds.nested_of_tagless {name : String} {elements : List (List Char)} {text out : List Char}
    (h : Adds name elements text out) (htext : tagsOf text = []) : Nested (tagsOf out) := by
  refine h.nested.mpr ⟨fun e he => ?_, htext ▸ .nil⟩
  obtain ⟨inner, htags, hinner⟩ := h.inside e he
  rw [htext, List.infix_nil] at hinner
  rw [htags, hinner]
  exact .element name .nil .nil

/-- The tags of each name come in pairs that follow each other, and all of the tags are nested
exactly if those in each plain emphasis are, which is written over the strong ones. -/
theorem inline_tags_nested {text out : List Char} (h : inlineChars text = .ok out) :
    (∀ name, ∃ count, (tagsOf out).filter (·.name = name) =
      (List.replicate count [.opening name, .closing name]).flatten) ∧
    (Nested (tagsOf out) ↔
      ∀ emphasis ∈ Text.written emphasisRule (strongText text), Nested (tagsOf emphasis)) := by
  have hstrong := adds_strongText text
  have hemphasis := adds_emphasisText text
  obtain ⟨elements, hcode, helements⟩ := exists_adds_code h
  constructor
  · intro name
    by_cases hnameCode : name = "code"
    · exact ⟨_, hnameCode ▸ hcode.own⟩
    rw [hcode.other name hnameCode]
    by_cases hnameEmphasis : name = "em"
    · exact ⟨_, hnameEmphasis ▸ hemphasis.own⟩
    rw [hemphasis.other name hnameEmphasis]
    by_cases hnameStrong : name = "strong"
    · exact ⟨_, hnameStrong ▸ hstrong.own⟩
    rw [hstrong.other name hnameStrong, tagsOf_escape]
    exact ⟨0, rfl⟩
  · have hspans : ∀ e ∈ elements, Nested (tagsOf e) := fun e he => by
      obtain ⟨content, rfl⟩ := helements e he
      rw [tagsOf_codeElement]
      exact .element "code" .nil .nil
    have hstrongNested := hstrong.nested_of_tagless (tagsOf_escape _)
    rw [hcode.nested, hemphasis.nested, and_iff_right hspans, and_iff_left hstrongNested]

/-- Plain emphasis around strong emphasis and around code, and code that looks like emphasis. -/
theorem inline_tags_nested_mixed :
    ∃ out, inlineChars "*a **b** `c`* `*d*`".toList = .ok out ∧
      out = "<em>a <strong>b</strong> <code>c</code></em> <code>*d*</code>".toList ∧
      (∀ name, ∃ count, (tagsOf out).filter (·.name = name) =
        (List.replicate count [.opening name, .closing name]).flatten) ∧
      Nested (tagsOf out) := by
  have hrun : ((inlineChars "*a **b** `c`* `*d*`".toList).toOption.map id) =
      some "<em>a <strong>b</strong> <code>c</code></em> <code>*d*</code>".toList := by
    decide +kernel
  obtain ⟨out, hout, hread⟩ := Outcome.exists_of_map_toOption hrun
  obtain ⟨hpairs, hnested⟩ := inline_tags_nested hout
  exact ⟨out, hout, hread, hpairs, hnested.mpr (by decide +kernel)⟩

/-- Of three stars the first two open a strong element, which closes before the plain emphasis that
the third one opens in it. -/
theorem inline_tags_crossed :
    (inlineChars "***a***".toList).toOption = some "<strong><em>a</strong></em>".toList ∧
      ¬Nested (tagsOf "<strong><em>a</strong></em>".toList) := by
  constructor <;> decide +kernel

end ApiContract.Doc
