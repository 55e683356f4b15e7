import ApiContract.Proofs.Text.Rewriting
import ApiContract.Proofs.Text.Splits

/-! # Words

The words of a text are what its blanks leave of it. Blanks at either end belong to no word, and
a blank between two texts keeps their words apart. What holds of a text when it holds on either side
of each blank holds of it when it holds of each word.
-/
namespace ApiContract.Text

/-- The runs of characters between blanks. -/
def words (text : List Char) : List (List Char) := runs (fun c => !isBlank c) text

variable {c : Char} {a b text : List Char}

theorem words_eq (text : List Char) : words text = (splitWhere isBlank text).filter (· ≠ []) := by
  simp [words, runs]

theorem words_append_cons (hc : isBlank c = true) (a b : List Char) :
    words (a ++ c :: b) = words a ++ words b := by
  simp only [words_eq, splitWhere_append hc, List.filter_append]

@[simp] theorem words_nil : words [] = [] := rfl

theorem words_blanks_append (ha : ∀ c ∈ a, isBlank c = true) (b : List Char) :
    words (a ++ b) = words b := by
  induction a with
  | nil => rfl
  | cons c a ih =>
    obtain ⟨hc, hrest⟩ := List.forall_mem_cons.mp ha
    exact (words_append_cons hc [] (a ++ b)).trans (ih hrest)

theorem words_append_blanks (hb : ∀ c ∈ b, isBlank c = true) (a : List Char) :
    words (a ++ b) = words a := by
  cases b with
  | nil => rw [List.append_nil]
  | cons c b =>
    obtain ⟨hc, hrest⟩ := List.forall_mem_cons.mp hb
    have hnone : words b = [] := by simpa using words_blanks_append hrest []
    rw [words_append_cons hc, hnone, List.append_nil]

/-- Blanks between two texts keep their words apart. -/
theorem words_gap {gap : List Char} (hne : gap ≠ []) (hgap : ∀ c ∈ gap, isBlank c = true)
    (a b : List Char) : words (a ++ (gap ++ b)) = words a ++ words b := by
  obtain ⟨c, gap, rfl⟩ := List.exists_cons_of_ne_nil hne
  obtain ⟨hc, hrest⟩ := List.forall_mem_cons.mp hgap
  rw [List.cons_append, words_append_cons hc, words_blanks_append hrest]

/-- A text without blanks is a word. -/
theorem words_solid (hne : text ≠ []) (hsolid : ∀ c ∈ text, isBlank c = false) :
    words text = [text] := by
  rw [words_eq, splitWhere_of_none hsolid]
  simpa using hne

/-- Each text is put together from texts without blanks and from the blanks between them. -/
@[elab_as_elim]
theorem words_induction {motive : List Char → Prop} (text : List Char)
    (solid : ∀ text, (∀ c ∈ text, isBlank c = false) → motive text)
    (cut : ∀ a c b, isBlank c = true → motive a → motive b → motive (a ++ c :: b)) :
    motive text := by
  have hall : ∀ a, (∀ c ∈ a, isBlank c = false) → motive (a ++ text) := by
    induction text with
    | nil => exact fun a ha => solid _ (by simpa using ha)
    | cons c text ih =>
      intro a ha
      cases hc : isBlank c with
      | true => exact cut a c text hc (solid a ha) (ih [] (by simp))
      | false =>
        have hmore := ih (a ++ [c]) (List.forall_mem_append.mpr ⟨ha, by simpa using hc⟩)
        simpa using hmore
  exact hall [] (by simp)

/-- Only a blank text has no words. -/
theorem words_eq_nil_iff : words text = [] ↔ isBlankText text = true := by
  constructor
  · intro h
    induction text with
    | nil => rfl
    | cons c text ih =>
      cases hc : isBlank c with
      | true =>
        have hrest : words text = [] := (words_append_cons hc [] text).symm.trans h
        simpa [isBlankText, hc] using ih hrest
      | false =>
        cases hs : splitWhere isBlank text with
        | nil => exact absurd hs (splitWhere_ne_nil _ _)
        | cons piece pieces => simp [words_eq, splitWhere, hc, hs] at h
  · intro h
    simpa using words_blanks_append (List.all_eq_true.mp h) []

theorem words_dropWhile {p : Char → Bool} (hp : ∀ c, p c = true → isBlank c = true)
    (text : List Char) : words (text.dropWhile p) = words text := by
  have hcut := List.takeWhile_append_dropWhile (p := p) (l := text)
  have hblanks : ∀ c ∈ text.takeWhile p, isBlank c = true := fun c hc =>
    hp c (List.mem_takeWhile_imp hc)
  rw [← words_blanks_append hblanks, hcut]

theorem words_strip (text : List Char) : words (strip text) = words text := by
  obtain ⟨dropped, htext, hblank⟩ := exists_dropped isBlank (dropLeading isBlank text)
  rw [strip, dropTrailing, ← words_append_blanks hblank, htext]
  exact words_dropWhile (fun _ h => h) text

theorem words_joinWith (hc : isBlank c = true) (pieces : List (List Char)) :
    words (joinWith [c] pieces) = pieces.flatMap words := by
  induction pieces with
  | nil => rfl
  | cons piece rest ih =>
    cases rest with
    | nil => simp [joinWith]
    | cons next rest =>
      rw [joinWith, List.append_assoc, List.singleton_append, words_append_cons hc, ih,
        ← List.flatMap_cons]
      exact List.cons_ne_nil next rest

/-- A cut at a blank keeps the words. -/
theorem words_splitAt (hc : isBlank c = true) (text : List Char) :
    (splitAt c text).flatMap words = words text := by
  rw [← words_joinWith hc, joinWith_splitAt]

theorem infix_of_mem_words (text : List Char) : ∀ word ∈ words text, word <:+: text := by
  induction text using words_induction with
  | solid text hsolid =>
    by_cases hne : text = []
    · simp [hne]
    · simp [words_solid hne hsolid]
  | cut a c b hc iha ihb =>
    rw [words_append_cons hc]
    refine List.forall_mem_append.mpr ⟨fun word hword => ?_, fun word hword => ?_⟩
    · exact (iha word hword).trans (List.prefix_append _ _).isInfix
    · exact (ihb word hword).trans ((List.suffix_cons _ _).trans (List.suffix_append _ _)).isInfix

/-- What splits at blanks holds of a text exactly if it holds of its words. -/
theorem Splits.iff_words {P : List Char → Prop} (hP : Splits P isBlank) (text : List Char) :
    P text ↔ ∀ word ∈ words text, P word := by
  induction text using words_induction with
  | solid text hsolid =>
    by_cases hne : text = []
    · simp [hne, hP.nil]
    · simp [words_solid hne hsolid]
  | cut a c b hc iha ihb => rw [hP.iff hc, iha, ihb, words_append_cons hc, List.forall_mem_append]

/-- A part of a text that has no blanks. -/
structure IsWhole (part : List Char) : Prop where
  nonempty : part ≠ []
  solid : ∀ c ∈ part, isBlank c = false

theorem IsWhole.exists_word {part : List Char} (hpart : IsWhole part) (text : List Char)
    (h : part <:+: text) : ∃ word ∈ words text, part <:+: word := by
  induction text using words_induction with
  | solid text hsolid =>
    have hne : text ≠ [] := fun hnil => hpart.nonempty (List.infix_nil.mp (hnil ▸ h))
    exact ⟨text, by simp [words_solid hne hsolid], h⟩
  | cut a c b hc iha ihb =>
    rw [words_append_cons hc]
    obtain ⟨x, y, hxy⟩ := h
    rw [List.append_assoc] at hxy
    rcases append_cons_eq_append hxy.symm with ⟨more, rfl, rfl⟩ | ⟨more, rfl, hmore⟩
    · obtain ⟨word, hword, hin⟩ := ihb ⟨more, y, List.append_assoc more part y⟩
      exact ⟨word, List.mem_append_right _ hword, hin⟩
    rcases append_cons_eq_append hmore.symm with ⟨inside, rfl, -⟩ | ⟨behind, rfl, -⟩
    · have hblank := hpart.solid c (by simp)
      rw [hc] at hblank
      cases hblank
    · obtain ⟨word, hword, hin⟩ := iha ⟨x, behind, List.append_assoc x part behind⟩
      exact ⟨word, List.mem_append_left _ hword, hin⟩

end ApiContract.Text
