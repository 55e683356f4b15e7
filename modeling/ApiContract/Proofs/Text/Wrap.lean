import Mathlib.Data.List.Chain
import ApiContract.Proofs.Text.Words
import ApiContract.Text.Wrap

/-! # What wrapping keeps

Wrapping takes a text apart at blanks only, and all that it adds, changes or drops are blanks. So
the words of a text are those of its lines.
-/
namespace ApiContract.Text

/-- A tab becomes blanks. The induction is on the text behind what is expanded already. -/
theorem words_expandTabs (text : List Char) : ∀ (column : ℕ) (a : List Char),
    words (a ++ expandTabs column text) = words (a ++ text) := by
  induction text with
  | nil => exact fun _ _ => rfl
  | cons c rest ih =>
    intro column a
    have hnext : ∀ column', words (a ++ c :: expandTabs column' rest) = words (a ++ c :: rest) :=
      fun column' => by simpa using ih column' (a ++ [c])
    rw [expandTabs]
    split
    · next hc =>
      subst hc
      have hwidth : tabWidth - column % tabWidth ≠ 0 := by
        unfold tabWidth
        omega
      have hblank : ∀ d ∈ List.replicate (tabWidth - column % tabWidth) ' ', isBlank d = true :=
        fun d hd => by rw [List.eq_of_mem_replicate hd]; decide
      dsimp only
      rw [words_gap (by simpa using hwidth) hblank, words_append_cons (by decide)]
      exact congrArg (words a ++ ·) (ih _ [])
    · split <;> exact hnext _

theorem words_flattenBreak (text : List Char) :
    ∀ a : List Char, words (a ++ text.map flattenBreak) = words (a ++ text) := by
  induction text with
  | nil => exact fun _ => rfl
  | cons c rest ih =>
    intro a
    by_cases hbreak : c = '\n' ∨ c = '\r' ∨ c = '\x0b' ∨ c = '\x0c'
    · have hblank : isBlank c = true := by
        rcases hbreak with rfl | rfl | rfl | rfl <;> decide
      rw [List.map_cons, flattenBreak, if_pos hbreak, words_append_cons (by decide),
        words_append_cons hblank]
      exact congrArg (words a ++ ·) (ih [])
    · rw [List.map_cons, flattenBreak, if_neg hbreak]
      simpa using ih (a ++ [c])

theorem flatten_chunks (text : List Char) : (chunks text).flatten = text := by
  induction text with
  | nil => rfl
  | cons c rest ih =>
    rw [chunks]
    split
    · next d ds more hrest =>
      rw [hrest] at ih
      split <;> simpa using ih
    · simpa using ih

theorem ne_nil_of_mem_chunks (text : List Char) : ∀ chunk ∈ chunks text, chunk ≠ [] := by
  induction text with
  | nil => exact fun _ h => absurd h List.not_mem_nil
  | cons c rest ih =>
    rw [chunks]
    split
    · next d ds more hrest =>
      rw [hrest] at ih
      have hmore := fun chunk h => ih chunk (List.mem_cons_of_mem _ h)
      split <;> simpa using hmore
    · simpa using ih

/-- There is a blank on one side at least of the place between two chunks. -/
def MeetAtBlank (d e : List Char) : Prop := d.getLast? = some ' ' ∨ e.head? = some ' '

theorem isChain_chunks (text : List Char) : (chunks text).IsChain MeetAtBlank := by
  induction text with
  | nil => exact .nil
  | cons c rest ih =>
    have hne := ne_nil_of_mem_chunks rest
    rw [chunks]
    split
    · next d ds more hrest =>
      rw [hrest] at ih
      split
      · rw [List.isChain_cons] at ih ⊢
        refine ⟨fun e he => ?_, ih.2⟩
        simpa [MeetAtBlank, List.getLast?_cons_cons] using ih.1 e he
      · next hkind =>
        refine List.isChain_cons_cons.mpr ⟨?_, ih⟩
        by_cases hc : c = ' '
        · exact .inl (by simp [hc])
        · refine .inr ?_
          by_cases hd : d = ' '
          · simp [hd]
          · simp [hc, hd] at hkind
    · next hrest =>
      cases hchunks : chunks rest with
      | nil => simp
      | cons d more =>
        cases d with
        | nil => exact absurd rfl (hne [] (hchunks ▸ List.mem_cons_self))
        | cons d ds => exact absurd hchunks (hrest d ds more)

/-- Chunks may be parted between any two of them. -/
theorem words_flatten_append {x y : List (List Char)} (h : (x ++ y).IsChain MeetAtBlank) :
    words (x ++ y).flatten = words x.flatten ++ words y.flatten := by
  obtain ⟨-, -, hmeet⟩ := List.isChain_append.mp h
  rw [List.flatten_append]
  rcases List.eq_nil_or_concat x with rfl | ⟨x, d, rfl⟩
  · rfl
  cases y with
  | nil => simp
  | cons e y =>
    have hspace : isBlank ' ' = true := by decide
    rcases hmeet d (by simp) e rfl with hlast | hhead
    · obtain ⟨d, rfl⟩ := List.getLast?_eq_some_iff.mp hlast
      have hsplit := words_append_cons hspace (x.flatten ++ d) (e :: y).flatten
      have hend := words_append_blanks (b := [' ']) (by simp [hspace]) (x.flatten ++ d)
      rw [List.append_assoc] at hend
      rw [List.concat_eq_append, List.flatten_append, List.flatten_singleton, hend, ← hsplit]
      simp
    · obtain ⟨e, rfl⟩ := List.head?_eq_some_iff.mp hhead
      have hsplit := words_append_cons hspace (x.concat d).flatten (e ++ y.flatten)
      have hstart := words_blanks_append (a := [' ']) (by simp [hspace]) (e ++ y.flatten)
      rw [List.flatten_cons, List.cons_append, ← List.singleton_append, hstart, ← hsplit]
      simp

theorem fill_append (width : Nat) (pieces : List (List Char)) :
    ∀ used, (fill width used pieces).1 ++ (fill width used pieces).2 = pieces := by
  induction pieces with
  | nil => exact fun _ => rfl
  | cons chunk rest ih =>
    intro used
    rw [fill]
    split
    · simpa using ih (used + chunk.length)
    · rfl

theorem nextLine_append (width : Nat) (pieces : List (List Char)) :
    (nextLine width pieces).1 ++ (nextLine width pieces).2 = pieces := by
  have hfill := fill_append width pieces 0
  unfold nextLine
  split
  · next long rest h =>
    rw [h] at hfill
    exact hfill
  · exact hfill

theorem dropBlankHead_suffix (pieces : List (List Char)) : dropBlankHead pieces <:+ pieces := by
  cases pieces with
  | nil => exact List.suffix_refl _
  | cons chunk rest =>
    rw [dropBlankHead]
    split
    · exact List.suffix_cons chunk rest
    · exact List.suffix_refl _

theorem words_dropBlankHead (pieces : List (List Char)) :
    words (dropBlankHead pieces).flatten = words pieces.flatten := by
  cases pieces with
  | nil => rfl
  | cons chunk rest =>
    rw [dropBlankHead]
    split
    · next hblank => exact (words_blanks_append (List.all_eq_true.mp hblank) rest.flatten).symm
    · rfl

theorem words_dropBlankLast (line : List (List Char)) :
    words (dropBlankHead line.reverse).reverse.flatten = words line.flatten := by
  rcases List.eq_nil_or_concat line with rfl | ⟨before, chunk, rfl⟩
  · rfl
  rw [List.concat_eq_append, List.reverse_append, List.reverse_singleton, List.singleton_append,
    dropBlankHead]
  split
  · next hblank =>
    rw [List.reverse_reverse, List.flatten_append]
    simpa using (words_append_blanks (List.all_eq_true.mp hblank) before.flatten).symm
  · rw [List.reverse_cons, List.reverse_reverse]

theorem length_nextLine_lt (width : Nat) {pieces : List (List Char)} (hne : pieces ≠ []) :
    (nextLine width pieces).2.length < pieces.length := by
  have happend := nextLine_append width pieces
  have hline : (nextLine width pieces).1 ≠ [] := by
    have hfill := fill_append width pieces 0
    unfold nextLine
    split
    · exact List.cons_ne_nil _ _
    · next hfirst =>
      intro hnil
      rw [hnil, List.nil_append] at hfill
      obtain ⟨long, rest, hpieces⟩ := List.exists_cons_of_ne_nil hne
      exact hfirst long rest (Prod.ext hnil (hfill.trans hpieces))
  have hlength := congrArg List.length happend
  have hpos := List.length_pos_of_ne_nil hline
  rw [List.length_append] at hlength
  omega

theorem words_wrapChunks (width fuel : ℕ) : ∀ (started : Bool) (pieces : List (List Char)),
    pieces.length ≤ fuel → pieces.IsChain MeetAtBlank →
      (wrapChunks width fuel started pieces).flatMap words = words pieces.flatten := by
  induction fuel with
  | zero =>
    intro started pieces hfuel _
    rw [List.length_eq_zero_iff.mp (Nat.le_zero.mp hfuel)]
    rfl
  | succ fuel ih =>
    intro started pieces hfuel hchain
    rw [wrapChunks]
    split
    · next hempty =>
      rw [List.isEmpty_iff.mp hempty]
      rfl
    have hgiven : words (if started then dropBlankHead pieces else pieces).flatten =
        words pieces.flatten ∧ (if started then dropBlankHead pieces else pieces) <:+ pieces := by
      split
      · exact ⟨words_dropBlankHead pieces, dropBlankHead_suffix pieces⟩
      · exact ⟨rfl, List.suffix_refl pieces⟩
    revert hgiven
    generalize (if started then dropBlankHead pieces else pieces) = given
    rintro ⟨hwords, hsuffix⟩
    have happend := nextLine_append width given
    have hall := hchain.suffix hsuffix
    rw [← happend] at hall
    have hparts : words (nextLine width given).1.flatten ++ words (nextLine width given).2.flatten =
        words pieces.flatten := by
      rw [← hwords, ← words_flatten_append hall, happend]
    have hrest : (nextLine width given).2.length ≤ fuel := by
      have hgiven := hsuffix.length_le
      rcases List.eq_nil_or_concat given with rfl | ⟨before, last, rfl⟩
      · exact Nat.zero_le _
      · have hne : before.concat last ≠ [] := by simp
        have hshorter := length_nextLine_lt width hne
        omega
    have hlater := (List.isChain_append.mp hall).2.1
    dsimp only
    split
    · next hkept =>
      have hnone := words_dropBlankLast (nextLine width given).1
      rw [List.isEmpty_iff.mp hkept] at hnone
      rw [ih _ _ hrest hlater, ← hparts, ← hnone]
      rfl
    · rw [List.flatMap_cons, ih _ _ hrest hlater, words_dropBlankLast, hparts]

/-- The words of a text are in its lines, in their order and whole. -/
theorem words_wrap (width : ℕ) (text : List Char) :
    (wrap width text).flatMap words = words text := by
  have hlines := words_wrapChunks width (chunks ((expandTabs 0 text).map flattenBreak)).length
    false _ le_rfl (isChain_chunks _)
  rw [flatten_chunks] at hlines
  have hflat := words_flattenBreak (expandTabs 0 text) []
  have htabs := words_expandTabs text 0 []
  simp only [List.nil_append] at hflat htabs
  rw [hflat, htabs] at hlines
  unfold wrap
  dsimp only
  split
  · next hnone =>
    rw [hnone] at hlines
    exact hlines
  · exact hlines

theorem Splits.wrap {P : List Char → Prop} (hP : Splits P isBlank) (width : ℕ) {text : List Char}
    (h : P text) : ∀ line ∈ Text.wrap width text, P line := by
  intro line hline
  refine (hP.iff_words line).mpr fun word hword => (hP.iff_words text).mp h word ?_
  rw [← words_wrap width text]
  exact List.mem_flatMap.mpr ⟨line, hline, hword⟩

/-- What has no blanks is not taken apart. -/
theorem IsWhole.wrap {part text : List Char} (hpart : IsWhole part) (width : ℕ)
    (h : part <:+: text) : ∃ line ∈ Text.wrap width text, part <:+: line := by
  obtain ⟨word, hword, hin⟩ := hpart.exists_word text h
  rw [← words_wrap width text] at hword
  obtain ⟨line, hline, hword⟩ := List.mem_flatMap.mp hword
  exact ⟨line, hline, hin.trans (infix_of_mem_words line word hword)⟩

end ApiContract.Text
