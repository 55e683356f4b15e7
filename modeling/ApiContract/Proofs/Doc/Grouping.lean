import ApiContract.Proofs.Doc.Blocks
import ApiContract.Proofs.Text.Words

/-! # Lines and their blocks

The lines of a description fall into parts, each of which makes one block or is a blank line. The
words of a block are the words of its part, without the fences and without the marks of bullets,
so that from the first line to the last no word gets lost, comes twice or changes its place.
-/
namespace ApiContract.Doc

/-- Lines that make a block, or a blank line between blocks. -/
inductive Part
  | blank (line : Line)
  | fenced (opening : Line) (body : List Line) (closing : Option Line)
  | indented (first : Line) (rest : List Line)
  | list (first : Line) (rest : List Line)
  | paragraph (first : Line) (rest : List Line)

namespace Part

def lines : Part → List Line
  | blank line => [line]
  | fenced opening body closing => opening :: (body ++ closing.toList)
  | indented first rest => first :: rest
  | list first rest => first :: rest
  | paragraph first rest => first :: rest

/-- The lines are of the kinds that their part is made of. -/
def IsFormed : Part → Prop
  | blank line => isBlankLine line = true
  | fenced opening body closing =>
    isBlankLine opening = false ∧ ∃ mark, fence? opening = some mark ∧
      (∀ line ∈ body, closesFence mark line = false) ∧
      ∀ line ∈ closing, closesFence mark line = true
  | indented first rest =>
    isBlankLine first = false ∧ fence? first = none ∧ isIndented first = true ∧
      ∀ line ∈ rest, continuesCode line = true
  | list first rest =>
    fence? first = none ∧ isIndented first = false ∧ isBullet first = true ∧
      ∀ line ∈ first :: rest, isBlankLine line = false
  | paragraph first rest =>
    isIndented first = false ∧ ∀ line ∈ first :: rest, continuesParagraph line = true

/-- The line behind the part does not belong to it. -/
def EndsBefore (behind : List Line) : Part → Prop
  | blank _ => True
  | fenced _ _ closing => closing = none → behind = []
  | indented _ _ => ∀ line ∈ behind.head?, continuesCode line = false
  | list _ _ => ∀ line ∈ behind.head?, isBlankLine line = true
  | paragraph _ _ => ∀ line ∈ behind.head?, continuesParagraph line = false

end Part

/-- The lines are those of the parts in their order, and each part is as long as it can be. -/
inductive Groups : List Part → List Line → Prop
  | nil : Groups [] []
  | cons {part : Part} {parts : List Part} {behind : List Line} (hformed : part.IsFormed)
      (hend : part.EndsBefore behind) (hlater : Groups parts behind) :
      Groups (part :: parts) (part.lines ++ behind)

/-- The words of a line of a list, without the mark if the line has a bullet. -/
def itemWords (line : Line) : List (List Char) :=
  Text.words (if isBullet line then (line.dropWhile Text.isBlank).tail else line)

/-- The words of a part, without its fences and the marks of its bullets. -/
def Part.words : Part → List (List Char)
  | blank _ => []
  | fenced _ body _ => body.flatMap Text.words
  | indented first rest => (first :: rest).flatMap Text.words
  | list first rest => (first :: rest).flatMap itemWords
  | paragraph first rest => (first :: rest).flatMap Text.words

def Block.words : Block → List (List Char)
  | paragraph text => Text.words text
  | list items => items.flatMap Text.words
  | code lines => lines.flatMap Text.words

/-- Only code may be empty. -/
def Block.IsFilled : Block → Prop
  | paragraph text => Text.words text ≠ []
  | list items => items ≠ []
  | code _ => True

def Part.block? : Part → Option Block
  | blank _ => none
  | fenced _ body _ => some (.code body)
  | indented first rest => some (.code (dropBlankLines ((first :: rest).map unindent)))
  | list first rest => some (.list ((first :: rest).foldl addItem []))
  | paragraph first rest =>
    some (.paragraph (Text.joinWith [' '] ((first :: rest).map Text.strip)))

section Taken

variable {p : Line → Bool} {rest behind : List Line}

theorem head?_dropWhile_eq_false : ∀ line ∈ (rest.dropWhile p).head?, p line = false := by
  intro line hline
  have hhead := List.head?_dropWhile_not p rest
  rw [Option.mem_def.mp hline] at hhead
  simpa using hhead

/-- The lines that are taken end at the first one that is not. -/
theorem takeWhile_append_of_head (hrest : ∀ line ∈ rest, p line = true)
    (hbehind : ∀ line ∈ behind.head?, p line = false) :
    (rest ++ behind).takeWhile p = rest ∧ (rest ++ behind).dropWhile p = behind := by
  rw [List.takeWhile_append_of_pos hrest, List.dropWhile_append_of_pos hrest]
  cases behind with
  | nil => simp
  | cons line behind =>
    have hline : ¬p line = true := by simp [hbehind line rfl]
    rw [List.takeWhile_cons_of_neg hline, List.dropWhile_cons_of_neg hline, List.append_nil]
    exact ⟨rfl, rfl⟩

/-- A part of a line and of those behind it up to the first one that does not go on with it. -/
theorem Groups.taken {part : Part} {parts : List Part} {line : Line}
    (hlines : part.lines = line :: rest.takeWhile p) (hformed : part.IsFormed)
    (hend : part.EndsBefore (rest.dropWhile p)) (hlater : Groups parts (rest.dropWhile p)) :
    Groups (part :: parts) (line :: rest) := by
  have hall := Groups.cons hformed hend hlater
  rwa [hlines, List.cons_append, List.takeWhile_append_dropWhile] at hall

end Taken

/-- All lines fall into parts. The cases are the ways in which a part starts. -/
theorem exists_groups (lines : List Line) : ∃ parts, Groups parts lines := by
  induction lines using blocks.induct with
  | case1 => exact ⟨[], .nil⟩
  | case2 line rest hblank ih =>
    obtain ⟨parts, hgroups⟩ := ih
    exact ⟨.blank line :: parts, .cons hblank trivial hgroups⟩
  | case3 line rest hblank mark hfence ih =>
    obtain ⟨parts, hgroups⟩ := ih
    have hcut := List.takeWhile_append_dropWhile (p := fun l => !closesFence mark l) (l := rest)
    have hbody : ∀ l ∈ rest.takeWhile fun l => !closesFence mark l, closesFence mark l = false :=
      fun l hl => by simpa using List.mem_takeWhile_imp hl
    have hclosing : ∀ l ∈ (rest.dropWhile fun l => !closesFence mark l).head?,
        (!closesFence mark l) = false := head?_dropWhile_eq_false
    generalize rest.takeWhile (fun l => !closesFence mark l) = body at hcut hbody
    generalize rest.dropWhile (fun l => !closesFence mark l) = behind at hcut hclosing hgroups
    have hformed : (Part.fenced line body behind.head?).IsFormed :=
      ⟨Bool.eq_false_iff.mpr hblank, mark, hfence, hbody, fun l hl => by simpa using hclosing l hl⟩
    have hend : (Part.fenced line body behind.head?).EndsBefore (behind.drop 1) := fun hnone => by
      rw [List.head?_eq_none_iff.mp hnone, List.drop_nil]
    have hlines : line :: rest = (Part.fenced line body behind.head?).lines ++ behind.drop 1 := by
      rw [← hcut]
      cases behind <;> simp [Part.lines]
    rw [hlines]
    exact ⟨_, .cons hformed hend hgroups⟩
  | case4 line rest hblank hfence hindent ih =>
    obtain ⟨parts, hgroups⟩ := ih
    have hformed : (Part.indented line (rest.takeWhile continuesCode)).IsFormed :=
      ⟨Bool.eq_false_iff.mpr hblank, hfence, hindent, fun l hl => List.mem_takeWhile_imp hl⟩
    exact ⟨_, .taken rfl hformed head?_dropWhile_eq_false hgroups⟩
  | case5 line rest hblank hfence hindent hbullet ih =>
    obtain ⟨parts, hgroups⟩ := ih
    have hrest : ∀ l ∈ rest.takeWhile fun l => !isBlankLine l, isBlankLine l = false :=
      fun l hl => by simpa using List.mem_takeWhile_imp hl
    have hformed : (Part.list line (rest.takeWhile fun l => !isBlankLine l)).IsFormed :=
      ⟨hfence, Bool.eq_false_iff.mpr hindent, hbullet,
        List.forall_mem_cons.mpr ⟨Bool.eq_false_iff.mpr hblank, hrest⟩⟩
    have hend : ∀ l ∈ (rest.dropWhile fun l => !isBlankLine l).head?, isBlankLine l = true :=
      fun l hl => by simpa using head?_dropWhile_eq_false l hl
    exact ⟨_, .taken rfl hformed hend hgroups⟩
  | case6 line rest hblank hfence hindent hbullet ih =>
    obtain ⟨parts, hgroups⟩ := ih
    have hfirst : continuesParagraph line = true := by
      simp [continuesParagraph, hblank, hbullet, hfence]
    have hformed : (Part.paragraph line (rest.takeWhile continuesParagraph)).IsFormed :=
      ⟨Bool.eq_false_iff.mpr hindent,
        List.forall_mem_cons.mpr ⟨hfirst, fun l hl => List.mem_takeWhile_imp hl⟩⟩
    exact ⟨_, .taken rfl hformed head?_dropWhile_eq_false hgroups⟩

/-- Of the lines of a part its block is made, and the other blocks of those behind it. -/
theorem blocks_part {part : Part} {behind : List Line} (h : part.IsFormed)
    (hend : part.EndsBefore behind) :
    blocks (part.lines ++ behind) = part.block?.toList ++ blocks behind := by
  cases part with
  | blank line =>
    have hblank : isBlankLine line = true := h
    exact (blocks.eq_def _).trans (if_pos hblank)
  | fenced opening body closing =>
    obtain ⟨hblank, mark, hfence, hbody, hclosing⟩ := h
    have hstop : ∀ l ∈ (closing.toList ++ behind).head?, (!closesFence mark l) = false := by
      cases closing with
      | none => simp [hend rfl]
      | some line => simpa using hclosing
    have hbehind : (closing.toList ++ behind).drop 1 = behind := by
      cases closing with
      | none => simp [hend rfl]
      | some line => rfl
    obtain ⟨htaken, hleft⟩ := takeWhile_append_of_head (p := fun l => !closesFence mark l)
      (by simpa using hbody) hstop
    have hlines : (Part.fenced opening body closing).lines ++ behind =
        opening :: (body ++ (closing.toList ++ behind)) := by simp [Part.lines]
    rw [hlines, blocks, if_neg (by simp [hblank]), hfence]
    simp only [htaken, hleft, hbehind]
    rfl
  | indented first rest =>
    obtain ⟨hblank, hfence, hindent, hrest⟩ := h
    obtain ⟨htaken, hleft⟩ := takeWhile_append_of_head hrest hend
    rw [Part.lines, List.cons_append, blocks, if_neg (by simp [hblank]), hfence]
    simp only [hindent, htaken, hleft, if_true]
    rfl
  | list first rest =>
    obtain ⟨hfence, hindent, hbullet, hlines⟩ := h
    obtain ⟨hblank, hrest⟩ := List.forall_mem_cons.mp hlines
    obtain ⟨htaken, hleft⟩ := takeWhile_append_of_head (p := fun l => !isBlankLine l)
      (by simpa using hrest) (by simpa [Part.EndsBefore] using hend)
    rw [Part.lines, List.cons_append, blocks, if_neg (by simp [hblank]), hfence]
    simp only [hindent, hbullet, htaken, hleft, Bool.false_eq_true, if_true, if_false]
    rfl
  | paragraph first rest =>
    obtain ⟨hindent, hlines⟩ := h
    obtain ⟨hfirst, hrest⟩ := List.forall_mem_cons.mp hlines
    obtain ⟨htaken, hleft⟩ := takeWhile_append_of_head hrest hend
    simp only [continuesParagraph, Bool.and_eq_true, Bool.not_eq_true', Option.isNone_iff_eq_none]
      at hfirst
    obtain ⟨⟨hblank, hbullet⟩, hfence⟩ := hfirst
    rw [Part.lines, List.cons_append, blocks, if_neg (by simp [hblank]), hfence]
    simp only [hindent, hbullet, htaken, hleft, Bool.false_eq_true, if_false]
    rfl

/-- The blocks are those of the parts. -/
theorem Groups.blocks_eq {parts : List Part} {lines : List Line} (h : Groups parts lines) :
    blocks lines = parts.filterMap Part.block? := by
  induction h with
  | nil => simp [blocks]
  | @cons part parts behind hformed hend _ ih =>
    rw [blocks_part hformed hend, ih]
    cases hblock : part.block? with
    | none => rw [List.filterMap_cons_none hblock]; rfl
    | some block => rw [List.filterMap_cons_some hblock]; rfl

theorem words_unindent (line : Line) : Text.words (unindent line) = Text.words line := by
  obtain ⟨blanks, hline, hblank⟩ := exists_unindented line
  rw [← Text.words_blanks_append hblank, hline]

theorem words_dropBlankLines (lines : List Line) :
    (dropBlankLines lines).flatMap Text.words = lines.flatMap Text.words := by
  obtain ⟨dropped, hlines, hblank⟩ := Text.exists_dropped isBlankLine lines
  have hnone : dropped.flatMap Text.words = [] :=
    List.flatMap_eq_nil_iff.mpr fun line hline => Text.words_eq_nil_iff.mpr (hblank line hline)
  have hall := congrArg (List.flatMap Text.words) hlines
  rwa [List.flatMap_append, hnone, List.append_nil] at hall

/-- What a bullet marks are the words of its line but the mark. -/
theorem words_bullet {line text : Line} (h : bullet? line = some text) :
    Text.words text = itemWords line := by
  have hbullet : isBullet line = true := by rw [isBullet, h, Option.isSome_some]
  obtain ⟨mark, gap, rest, hline, -, hgap, rfl⟩ := bullet?_eq_some h
  rw [itemWords, if_pos hbullet, hline, List.tail_cons, Text.words_strip]
  exact (Text.words_append_cons hgap [] rest).symm

theorem words_addItem (items : List Line) (line : Line) (h : items ≠ [] ∨ isBullet line = true) :
    (addItem items line).flatMap Text.words = items.flatMap Text.words ++ itemWords line ∧
      addItem items line ≠ [] := by
  unfold addItem
  cases hbullet : bullet? line with
  | some text => simp [words_bullet hbullet]
  | none =>
    have hplain : isBullet line = false := by rw [isBullet, hbullet]; rfl
    have hne : items ≠ [] := h.resolve_right (by simp [hplain])
    obtain ⟨before, last, rfl⟩ := (List.eq_nil_or_concat items).resolve_left hne
    have hwords := Text.words_append_cons (c := ' ') (by decide) last (Text.strip line)
    simp [itemWords, hplain, hwords, Text.words_strip]

/-- The induction is on the lines, with the items before them. -/
theorem words_items (lines : List Line) : ∀ items : List Line, items ≠ [] →
    (lines.foldl addItem items).flatMap Text.words =
        items.flatMap Text.words ++ lines.flatMap itemWords ∧
      lines.foldl addItem items ≠ [] := by
  induction lines with
  | nil => exact fun items hne => ⟨by simp, hne⟩
  | cons line rest ih =>
    intro items hne
    obtain ⟨hwords, hsome⟩ := words_addItem items line (.inl hne)
    obtain ⟨hall, hitems⟩ := ih _ hsome
    exact ⟨by rw [List.foldl_cons, hall, hwords, List.append_assoc, List.flatMap_cons], hitems⟩

theorem Part.words_block {part : Part} (h : part.IsFormed) {block : Block}
    (hb : part.block? = some block) : block.words = part.words ∧ block.IsFilled := by
  cases part with
  | blank line => cases hb
  | fenced opening body closing =>
    cases hb
    exact ⟨rfl, trivial⟩
  | indented first rest =>
    cases hb
    refine ⟨?_, trivial⟩
    simp only [Block.words, words_dropBlankLines, List.flatMap_map, words, words_unindent]
  | list first rest =>
    cases hb
    obtain ⟨-, -, hbullet, -⟩ := h
    obtain ⟨hfirst, hsome⟩ := words_addItem [] first (.inr hbullet)
    obtain ⟨hall, hitems⟩ := words_items rest _ hsome
    refine ⟨?_, hitems⟩
    rw [Block.words, List.foldl_cons, hall, hfirst, words, List.flatMap_cons]
    rfl
  | paragraph first rest =>
    cases hb
    have hwords : Block.words (.paragraph (Text.joinWith [' '] ((first :: rest).map Text.strip))) =
        (first :: rest).flatMap Text.words := by
      rw [Block.words, Text.words_joinWith (by decide)]
      simp only [List.flatMap_map, Text.words_strip]
    refine ⟨hwords, fun hnone => ?_⟩
    have hfirst := h.2 first List.mem_cons_self
    rw [Block.words] at hwords
    rw [hwords, List.flatMap_eq_nil_iff] at hnone
    have hblank := Text.words_eq_nil_iff.mp (hnone first List.mem_cons_self)
    simp [continuesParagraph, isBlankLine, hblank] at hfirst

theorem Groups.isFormed {parts : List Part} {lines : List Line} (h : Groups parts lines) :
    ∀ part ∈ parts, part.IsFormed := by
  induction h with
  | nil => simp
  | cons hformed _ _ ih => exact List.forall_mem_cons.mpr ⟨hformed, ih⟩

theorem words_filterMap_block {parts : List Part} (h : ∀ part ∈ parts, part.IsFormed) :
    (parts.filterMap Part.block?).flatMap Block.words = parts.flatMap Part.words := by
  induction parts with
  | nil => rfl
  | cons part parts ih =>
    obtain ⟨hpart, hparts⟩ := List.forall_mem_cons.mp h
    rw [List.flatMap_cons, ← ih hparts]
    cases hblock : part.block? with
    | some block =>
      rw [List.filterMap_cons_some hblock, List.flatMap_cons, (Part.words_block hpart hblock).1]
    | none =>
      have hnone : part.words = [] := by
        cases part with
        | blank line => rfl
        | _ => cases hblock
      rw [List.filterMap_cons_none hblock, hnone, List.nil_append]

/-- The breaks between lines are blanks. -/
theorem words_linesOf (text : List Char) : (linesOf text).flatMap Text.words = Text.words text := by
  rw [linesOf, Text.words_splitAt (by decide)]
  refine Text.replacePair_keeps (P := fun some => Text.words some = Text.words text)
    (fun a b h => ?_) text [] rfl
  rw [← h, Text.words_append_cons (c := '\r') (by decide), List.singleton_append,
    Text.words_append_cons (by decide)]
  exact congrArg (Text.words a ++ ·) (Text.words_append_cons (by decide) [] b).symm

/-- The words of a text are those of its lines. The lines fall into parts, and however they do,
the blocks have the words of the parts in their order: all words but those of the fences around code
and the marks of bullets. -/
theorem blocks_keep_words (text : List Char) :
    (linesOf text).flatMap Text.words = Text.words text ∧
    (∃ parts, Groups parts (linesOf text)) ∧
    (∀ parts, Groups parts (linesOf text) →
      (blocks (linesOf text)).flatMap Block.words = parts.flatMap Part.words) ∧
    ∀ block ∈ blocks (linesOf text), block.IsFilled := by
  refine ⟨words_linesOf text, exists_groups _, fun parts hgroups => ?_, fun block hblock => ?_⟩
  · rw [hgroups.blocks_eq, words_filterMap_block hgroups.isFormed]
  · obtain ⟨parts, hgroups⟩ := exists_groups (linesOf text)
    rw [hgroups.blocks_eq] at hblock
    obtain ⟨part, hpart, hread⟩ := List.mem_filterMap.mp hblock
    exact (Part.words_block (hgroups.isFormed part hpart) hread).2

end ApiContract.Doc
