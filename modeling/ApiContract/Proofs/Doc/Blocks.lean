import ApiContract.Doc.Block
import ApiContract.Doc.Inline
import ApiContract.Proofs.Text.Splits

/-! # What the blocks of a description keep

The lines of a description are grouped, stripped, unindented and joined again. Fences and
bullets stand at the start of a line, behind blanks at most. A property of texts that splits at
blanks goes over from the description to the text of each of its blocks.
-/
namespace ApiContract.Doc

/-- A blank, the tick of a code span or the end of a marker. -/
def isGap (c : Char) : Bool := Text.isBlank c || isTick c || c == '\x00'

theorem isGap_of_isBlank (c : Char) (h : Text.isBlank c = true) : isGap c = true := by
  simp [isGap, h]

/-- Only blanks are taken from the start of a line of code. -/
theorem exists_unindented (line : Line) :
    ∃ blanks, blanks ++ unindent line = line ∧ ∀ c ∈ blanks, Text.isBlank c = true := by
  unfold unindent
  split
  · next hprefix =>
    obtain ⟨rest, rfl⟩ := List.isPrefixOf_iff_prefix.mp hprefix
    refine ⟨fourBlanks, by rw [show 4 = fourBlanks.length from rfl, List.drop_left], fun c hc => ?_⟩
    rw [List.eq_of_mem_replicate hc]
    decide
  · refine ⟨_, List.takeWhile_append_dropWhile, fun c hc => ?_⟩
    rw [eq_of_beq (List.mem_takeWhile_imp (p := (· == '\t')) hc)]
    decide

/-- The line starts with the mark, behind blanks at most. -/
def StartsWith (mark line : List Char) : Prop :=
  ∃ blanks rest, line = blanks ++ (mark ++ rest) ∧ ∀ c ∈ blanks, Text.isBlank c = true

theorem dropWhile_blanks_append {blanks rest : List Char} {c : Char}
    (hblanks : ∀ d ∈ blanks, Text.isBlank d = true) (hc : Text.isBlank c = false) :
    (blanks ++ c :: rest).dropWhile Text.isBlank = c :: rest := by
  rw [List.dropWhile_append_of_pos hblanks, List.dropWhile_cons_of_neg (by simp [hc])]

theorem startsWith_iff {mark line : List Char} (hne : mark ≠ [])
    (hmark : ∀ c ∈ mark, Text.isBlank c = false) :
    StartsWith mark line ↔ mark <+: line.dropWhile Text.isBlank := by
  obtain ⟨c, mark, rfl⟩ := List.exists_cons_of_ne_nil hne
  constructor
  · rintro ⟨blanks, rest, rfl, hblanks⟩
    rw [List.cons_append, dropWhile_blanks_append hblanks (hmark c List.mem_cons_self)]
    exact List.prefix_append (c :: mark) rest
  · rintro ⟨rest, hrest⟩
    refine ⟨line.takeWhile Text.isBlank, rest, ?_, fun d hd => List.mem_takeWhile_imp hd⟩
    rw [hrest, List.takeWhile_append_dropWhile]

/-- Three ticks or three tildes. -/
def fenceMarks : List (List Char) := [List.replicate 3 '\x60', List.replicate 3 '~']

theorem solid_fenceMarks : ∀ mark ∈ fenceMarks,
    mark ≠ [] ∧ ∀ c ∈ mark, Text.isBlank c = false := by
  have hmarks : Text.isBlank '\x60' = false ∧ Text.isBlank '~' = false := by decide
  simp [fenceMarks, hmarks]

/-- A fence is a line that starts with ticks or with tildes. -/
theorem fence?_eq_some_iff {line mark : List Char} :
    fence? line = some mark ↔ mark ∈ fenceMarks ∧ StartsWith mark line := by
  constructor
  · intro h
    have hmark : mark ∈ fenceMarks := List.mem_of_find?_eq_some h
    obtain ⟨hne, hsolid⟩ := solid_fenceMarks mark hmark
    have hfound := List.find?_some h
    exact ⟨hmark, (startsWith_iff hne hsolid).mpr (List.isPrefixOf_iff_prefix.mp hfound)⟩
  · rintro ⟨hmark, hstart⟩
    obtain ⟨hne, hsolid⟩ := solid_fenceMarks mark hmark
    obtain ⟨rest, hrest⟩ := (startsWith_iff hne hsolid).mp hstart
    rw [fence?, ← hrest]
    rcases List.mem_cons.mp hmark with rfl | hmark
    · rfl
    · cases List.mem_singleton.mp hmark
      rfl

/-- A fence is closed by any line that starts with its mark. -/
theorem closesFence_iff {mark line : List Char} (hmark : mark ∈ fenceMarks) :
    closesFence mark line = true ↔ StartsWith mark line := by
  obtain ⟨hne, hsolid⟩ := solid_fenceMarks mark hmark
  rw [closesFence, List.isPrefixOf_iff_prefix, startsWith_iff hne hsolid, Text.strip,
    Text.dropLeading]
  obtain ⟨dropped, hline, hblank⟩ := Text.exists_dropped Text.isBlank (line.dropWhile Text.isBlank)
  rw [← Text.dropTrailing] at hline
  generalize line.dropWhile Text.isBlank = shown at hline
  constructor
  · exact fun h => hline ▸ h.trans (List.prefix_append _ dropped)
  · intro h
    rw [← hline] at h
    rcases List.prefix_or_prefix_of_prefix h (List.prefix_append _ dropped) with h | ⟨more, rfl⟩
    · exact h
    · have hmore := (List.prefix_append_right_inj _).mp h
      obtain rfl : more = [] := List.eq_nil_iff_forall_not_mem.mpr fun c hc => by
        have hsolid := hsolid c (List.mem_append_right _ hc)
        rw [hblank c (hmore.subset hc)] at hsolid
        cases hsolid
      exact ⟨[], by simp⟩

/-- A bullet is a mark and a blank behind it, and the rest of the line is its text. -/
theorem bullet?_eq_some {line text : Line} (h : bullet? line = some text) :
    ∃ mark gap rest, line.dropWhile Text.isBlank = mark :: gap :: rest ∧
      isBulletMark mark = true ∧ Text.isBlank gap = true ∧ text = Text.strip rest := by
  unfold bullet? at h
  split at h
  · next mark gap rest hline =>
    split_ifs at h with hmark
    obtain ⟨hbullet, hgap⟩ := Bool.and_eq_true_iff.mp hmark
    exact ⟨mark, gap, rest, hline, hbullet, hgap, (Option.some.inj h).symm⟩
  · cases h

/-- The line starts with a star, a plus or a minus and a blank. -/
theorem bullet?_eq_some_iff {line text : Line} :
    bullet? line = some text ↔ ∃ mark ∈ ['*', '+', '-'], ∃ blanks gap rest,
      line = blanks ++ mark :: gap :: rest ∧ (∀ c ∈ gap :: blanks, Text.isBlank c = true) ∧
        text = Text.strip rest := by
  constructor
  · intro h
    obtain ⟨mark, gap, rest, hline, hmark, hgap, htext⟩ := bullet?_eq_some h
    refine ⟨mark, by simpa [isBulletMark, or_assoc] using hmark, line.takeWhile Text.isBlank, gap,
      rest, ?_, ?_, htext⟩
    · rw [← hline, List.takeWhile_append_dropWhile]
    · exact List.forall_mem_cons.mpr ⟨hgap, fun c hc => List.mem_takeWhile_imp hc⟩
  · rintro ⟨mark, hmark, blanks, gap, rest, rfl, hblanks, rfl⟩
    obtain ⟨hgap, hblanks⟩ := List.forall_mem_cons.mp hblanks
    obtain ⟨hsolid, hbullet⟩ : Text.isBlank mark = false ∧ isBulletMark mark = true := by
      simp only [List.mem_cons, List.not_mem_nil, or_false] at hmark
      rcases hmark with rfl | rfl | rfl <;> decide
    rw [bullet?, dropWhile_blanks_append hblanks hsolid]
    simp [hbullet, hgap]

/-- The texts in a block have the property. -/
def Block.Holds (P : List Char → Prop) : Block → Prop
  | paragraph text => P text
  | list items => ∀ item ∈ items, P item
  | code lines => ∀ line ∈ lines, P line

variable {P : List Char → Prop} (hP : Text.Splits P isGap)
include hP

theorem holds_linesOf {text : List Char} (h : P text) : ∀ line ∈ linesOf text, P line := by
  refine hP.splitAt (by decide) (Text.replacePair_keeps (fun a b h => ?_) text [] h)
  obtain ⟨ha, hrest⟩ := (hP.iff (by decide) a ('\n' :: b)).mp h
  have hb := ((hP.iff (by decide) [] b).mp hrest).2
  exact (hP.iff (by decide) a b).mpr ⟨ha, hb⟩

theorem holds_strip {line : Line} (h : P line) : P (Text.strip line) := hP.strip isGap_of_isBlank h

theorem holds_unindent {line : Line} (h : P line) : P (unindent line) := by
  obtain ⟨blanks, hline, hblank⟩ := exists_unindented line
  rw [← hline] at h
  exact hP.of_append_right (fun c hc => isGap_of_isBlank c (hblank c hc)) h

theorem holds_bullet {line text : Line} (h : P line) (hb : bullet? line = some text) : P text := by
  obtain ⟨mark, gap, rest, hline, -, hgap, rfl⟩ := bullet?_eq_some hb
  have hstart := hP.dropWhile isGap_of_isBlank h
  rw [hline] at hstart
  exact holds_strip hP ((hP.iff (isGap_of_isBlank gap hgap) [mark] rest).mp hstart).2

theorem holds_addItem {items : List Line} {line : Line} (hi : ∀ item ∈ items, P item)
    (h : P line) : ∀ item ∈ addItem items line, P item := by
  unfold addItem
  split
  · next text htext =>
    intro item hitem
    rcases List.mem_append.mp hitem with hitem | hitem
    · exact hi item hitem
    · cases List.mem_singleton.mp hitem
      exact holds_bullet hP h htext
  · split
    · next last hlast =>
      intro item hitem
      rcases List.mem_append.mp hitem with hitem | hitem
      · exact hi item (List.dropLast_subset _ hitem)
      · cases List.mem_singleton.mp hitem
        have hmem := hi last (List.mem_of_getLast? hlast)
        exact (hP.iff (by decide) _ _).mpr ⟨hmem, holds_strip hP h⟩
    · exact hi

theorem holds_items (lines : List Line) :
    ∀ items : List Line, (∀ item ∈ items, P item) → (∀ line ∈ lines, P line) →
      ∀ item ∈ lines.foldl addItem items, P item := by
  induction lines with
  | nil => exact fun _ hi _ => hi
  | cons line rest ih =>
    intro items hi h
    rw [List.foldl_cons]
    exact ih _ (holds_addItem hP hi (h line List.mem_cons_self))
      fun l hl => h l (List.mem_cons_of_mem _ hl)

omit hP in
theorem mem_dropBlankLines {lines : List Line} {line : Line} (h : line ∈ dropBlankLines lines) :
    line ∈ lines := by
  have hmem := (List.dropWhile_sublist _).subset (List.mem_reverse.mp h)
  exact List.mem_reverse.mp hmem

/-- Each block has its texts from its own lines, and the blocks behind it from later ones. -/
theorem holds_blocks (lines : List Line) (h : ∀ line ∈ lines, P line) :
    ∀ block ∈ blocks lines, block.Holds P := by
  induction lines using blocks.induct with
  | case1 => simp [blocks]
  | case2 line rest hblank ih =>
    rw [blocks, if_pos hblank]
    exact ih fun l hl => h l (List.mem_cons_of_mem _ hl)
  | case3 line rest hblank mark hfence ih =>
    obtain ⟨-, hrest⟩ := List.forall_mem_cons.mp h
    have hlater := ih fun l hl =>
      hrest l (((List.drop_sublist 1 _).trans (List.dropWhile_sublist _)).subset hl)
    rw [blocks, if_neg hblank, hfence]
    exact List.forall_mem_cons.mpr
      ⟨fun l hl => hrest l ((List.takeWhile_sublist _).subset hl), hlater⟩
  | case4 line rest hblank hfence hindent ih =>
    obtain ⟨hline, hrest⟩ := List.forall_mem_cons.mp h
    have hlater := ih fun l hl => hrest l ((List.dropWhile_sublist _).subset hl)
    rw [blocks, if_neg hblank, hfence]
    dsimp only
    rw [if_pos hindent]
    refine List.forall_mem_cons.mpr ⟨fun l hl => ?_, hlater⟩
    obtain ⟨source, hsource, rfl⟩ := List.mem_map.mp (mem_dropBlankLines hl)
    refine holds_unindent hP ?_
    rcases List.mem_cons.mp hsource with rfl | hsource
    · exact hline
    · exact hrest source ((List.takeWhile_sublist _).subset hsource)
  | case5 line rest hblank hfence hindent hbullet ih =>
    obtain ⟨hline, hrest⟩ := List.forall_mem_cons.mp h
    have hlater := ih fun l hl => hrest l ((List.dropWhile_sublist _).subset hl)
    rw [blocks, if_neg hblank, hfence]
    dsimp only
    rw [if_neg hindent, if_pos hbullet]
    refine List.forall_mem_cons.mpr ⟨holds_items hP _ [] (by simp) ?_, hlater⟩
    exact List.forall_mem_cons.mpr
      ⟨hline, fun l hl => hrest l ((List.takeWhile_sublist _).subset hl)⟩
  | case6 line rest hblank hfence hindent hbullet ih =>
    obtain ⟨hline, hrest⟩ := List.forall_mem_cons.mp h
    have hlater := ih fun l hl => hrest l ((List.dropWhile_sublist _).subset hl)
    rw [blocks, if_neg hblank, hfence]
    dsimp only
    rw [if_neg hindent, if_neg hbullet]
    refine List.forall_mem_cons.mpr ⟨(hP.joinWith_iff (by decide) _).mpr fun l hl => ?_, hlater⟩
    obtain ⟨source, hsource, rfl⟩ := List.mem_map.mp hl
    refine holds_strip hP ?_
    rcases List.mem_cons.mp hsource with rfl | hsource
    · exact hline
    · exact hrest source ((List.takeWhile_sublist _).subset hsource)

theorem holds_description {text : List Char} (h : P text) :
    ∀ block ∈ blocks (linesOf text), block.Holds P :=
  holds_blocks hP _ (holds_linesOf hP h)

end ApiContract.Doc
