import Mathlib.Data.List.Chain
import ApiContract.Proofs.Doc.Weaving

/-! # The markup of a comment

A line of a description is put together from tags of its own, entities and plain
characters. Nothing that the description says reaches a line as markup, and nothing
ends the comment.
-/
namespace ApiContract.Doc

/-- The characters that are markup in a comment. -/
def isMarkup (c : Char) : Bool := ['<', '>', '&', '@'].contains c

/-- What stands for the characters of a description that would be markup, or would end
the comment. -/
def entities : List String := ["&amp;", "&lt;", "&gt;", "&#64;", "&#47;"]

/-- A part of a line: a plain character, a whole tag, or an entity. -/
inductive Piece
  | plain (c : Char) (h : isMarkup c = false)
  | opening (name : String) (h : name ∈ tagNames)
  | closing (name : String) (h : name ∈ tagNames)
  | entity (text : String) (h : text ∈ entities)

def Piece.text : Piece → List Char
  | plain c _ => [c]
  | opening name _ => Doc.opening name
  | closing name _ => Doc.closing name
  | entity text _ => text.toList

/-- The text is all plain characters, whole tags and entities. -/
def IsMarkedUp (text : List Char) : Prop := ∃ pieces : List Piece, pieces.flatMap Piece.text = text

/-- The text does not end the comment that it stands in. -/
def NoEnd (text : List Char) : Prop := text.IsChain fun a b => ¬(a = '*' ∧ b = '/')

theorem IsMarkedUp.nil : IsMarkedUp [] := ⟨[], rfl⟩

theorem isMarkedUp_piece (piece : Piece) : IsMarkedUp piece.text := ⟨[piece], by simp⟩

theorem IsMarkedUp.append {a b : List Char} (ha : IsMarkedUp a) (hb : IsMarkedUp b) :
    IsMarkedUp (a ++ b) := by
  obtain ⟨x, rfl⟩ := ha
  obtain ⟨y, rfl⟩ := hb
  exact ⟨x ++ y, List.flatMap_append⟩

/-- A character that is in no tag and in no entity. -/
def IsBare (c : Char) : Prop :=
  isMarkup c = false ∧ (∀ name ∈ tagNames, c ∉ opening name ∧ c ∉ closing name) ∧
    ∀ text ∈ entities, c ∉ text.toList

instance (c : Char) : Decidable (IsBare c) := inferInstanceAs (Decidable (_ ∧ _ ∧ _))

theorem isBare_of_isGap {c : Char} (h : isGap c = true) : IsBare c := by
  have hnone : ∀ text : List Char, text.any isGap = false → c ∉ text := by
    intro text htext hc
    rw [List.any_eq_true.mpr ⟨c, hc, h⟩] at htext
    cases htext
  have hmarkup : ['<', '>', '&', '@'].any isGap = false := by decide
  have htags : ∀ name ∈ tagNames, (opening name).any isGap = false ∧
      (closing name).any isGap = false := by decide
  have hentities : ∀ text ∈ entities, text.toList.any isGap = false := by decide
  refine ⟨?_, fun name hname => ⟨?_, ?_⟩, fun text htext => ?_⟩
  · refine Bool.eq_false_iff.mpr fun hc => ?_
    exact hnone _ hmarkup (List.contains_iff_mem.mp hc)
  · exact hnone _ (htags name hname).1
  · exact hnone _ (htags name hname).2
  · exact hnone _ (hentities text htext)

theorem Piece.text_of_mem {c : Char} (hc : IsBare c) {piece : Piece} (h : c ∈ piece.text) :
    piece.text = [c] := by
  obtain ⟨-, htags, hentities⟩ := hc
  cases piece with
  | plain d hd => rw [text, List.mem_singleton.mp h]
  | opening name hname => exact absurd h (htags name hname).1
  | closing name hname => exact absurd h (htags name hname).2
  | entity text htext => exact absurd h (hentities text htext)

/-- The induction is on the pieces: the one that the character is in is that character. -/
theorem isMarkedUp_append_iff {c : Char} (hc : IsBare c) (a b : List Char) :
    IsMarkedUp (a ++ c :: b) ↔ IsMarkedUp a ∧ IsMarkedUp b := by
  constructor
  · rintro ⟨pieces, hpieces⟩
    induction pieces generalizing a with
    | nil => simp at hpieces
    | cons piece rest ih =>
      rw [List.flatMap_cons] at hpieces
      rcases Text.append_cons_eq_append hpieces.symm with ⟨more, hpiece, rfl⟩ | ⟨more, rfl, hrest⟩
      · have hmem : c ∈ piece.text := by simp [hpiece]
        rw [Piece.text_of_mem hc hmem] at hpiece
        cases a with
        | nil =>
          obtain rfl := (List.cons.inj hpiece).2
          exact ⟨.nil, rest, rfl⟩
        | cons e a => simp at hpiece
      · obtain ⟨ha, hb⟩ := ih more hrest
        exact ⟨(isMarkedUp_piece piece).append ha, hb⟩
  · rintro ⟨ha, hb⟩
    have hplain := isMarkedUp_piece (.plain c hc.1)
    simpa [Piece.text] using ha.append (hplain.append hb)

/-- A piece is one plain character or begins with markup. -/
theorem Piece.text_cases (piece : Piece) :
    (∃ c, isMarkup c = false ∧ piece.text = [c]) ∨
      ∃ c more, isMarkup c = true ∧ piece.text = c :: more := by
  cases piece with
  | plain c h => exact .inl ⟨c, h, rfl⟩
  | opening name _ => exact .inr ⟨'<', _, by decide, rfl⟩
  | closing name _ => exact .inr ⟨'<', _, by decide, rfl⟩
  | entity text htext =>
    have hentities : ∀ text ∈ entities, text.toList.head? = some '&' := by decide
    obtain ⟨more, hmore⟩ := List.head?_eq_some_iff.mp (hentities text htext)
    exact .inr ⟨'&', more, by decide, hmore⟩

theorem IsMarkedUp.tail {c : Char} (hc : isMarkup c = false) {b : List Char}
    (h : IsMarkedUp (c :: b)) : IsMarkedUp b := by
  obtain ⟨pieces, hpieces⟩ := h
  cases pieces with
  | nil => cases hpieces
  | cons piece rest =>
    rw [List.flatMap_cons] at hpieces
    rcases piece.text_cases with ⟨d, -, hd⟩ | ⟨d, more, hd, htext⟩
    · rw [hd] at hpieces
      exact ⟨rest, (List.cons.inj hpieces).2⟩
    · rw [htext] at hpieces
      rw [(List.cons.inj hpieces).1, hc] at hd
      cases hd

theorem isMarkedUp_escapeChar (c : Char) : IsMarkedUp (escapeChar c) := by
  unfold escapeChar
  split_ifs with h1 h2 h3 h4
  · exact isMarkedUp_piece (.entity "&amp;" (by decide))
  · exact isMarkedUp_piece (.entity "&lt;" (by decide))
  · exact isMarkedUp_piece (.entity "&gt;" (by decide))
  · exact isMarkedUp_piece (.entity "&#64;" (by decide))
  · exact isMarkedUp_piece (.plain c (by simp [isMarkup, h1, h2, h3, h4]))

theorem isMarkedUp_escape (text : List Char) : IsMarkedUp (escape text) := by
  have hchars : IsMarkedUp (text.flatMap escapeChar) := by
    induction text with
    | nil => exact .nil
    | cons c rest ih => exact (isMarkedUp_escapeChar c).append ih
  refine Text.replacePair_keeps (fun a b h => ?_) _ [] hchars
  obtain ⟨ha, hslash⟩ := (isMarkedUp_append_iff (by decide) a _).mp h
  have hstar := isMarkedUp_piece (.plain '*' (by decide))
  have hentity := isMarkedUp_piece (.entity "&#47;" (by decide))
  exact ha.append ((hstar.append hentity).append (hslash.tail (by decide)))

/-- Escaping writes entities, and no other character that the text does not have. -/
theorem not_mem_escape {c : Char} (hentities : ∀ text ∈ entities, c ∉ text.toList)
    {text : List Char} (htext : c ∈ text → isMarkup c = true) : c ∉ escape text := by
  have hchar : ∀ d ∈ text, c ∉ escapeChar d := by
    intro d hd
    unfold escapeChar
    split_ifs with h1 h2 h3 h4
    · exact hentities "&amp;" (by decide)
    · exact hentities "&lt;" (by decide)
    · exact hentities "&gt;" (by decide)
    · exact hentities "&#64;" (by decide)
    · intro hmem
      obtain rfl := List.mem_singleton.mp hmem
      have hplain : isMarkup c = false := by simp [isMarkup, h1, h2, h3, h4]
      rw [htext hd] at hplain
      cases hplain
  have hslash := hentities "&#47;" (by decide)
  refine Text.replacePair_keeps (P := (c ∉ ·)) (fun a b h => ?_) _ [] fun hmem => ?_
  · simp only [List.mem_append, List.mem_cons, not_or] at h
    obtain ⟨ha, hstar, -, hb⟩ := h
    have hentity : c ∉ "*&#47;".toList := List.not_mem_cons_of_ne_of_not_mem hstar hslash
    simp only [List.mem_append, not_or]
    exact ⟨ha, hentity, hb⟩
  · obtain ⟨d, hd, hc⟩ := List.mem_flatMap.mp hmem
    exact hchar d hd hc

theorem woven_isMarkedUp : Woven IsMarkedUp where
  splits := ⟨.nil, fun hc => isMarkedUp_append_iff (isBare_of_isGap hc)⟩
  cut hc a b h := by
    refine (isMarkedUp_append_iff ?_ a b).mp h
    rcases hc with rfl | rfl <;> decide
  opened name hname _ _ ha hb := ha.append ((isMarkedUp_piece (.opening name hname)).append hb)
  closed name hname _ _ ha hb := ha.append ((isMarkedUp_piece (.closing name hname)).append hb)

theorem noEnd_append_iff {c : Char} (hstar : c ≠ '*') (hslash : c ≠ '/') (a b : List Char) :
    NoEnd (a ++ c :: b) ↔ NoEnd a ∧ NoEnd b := by
  unfold NoEnd
  rw [List.isChain_append, List.isChain_cons]
  simp [hstar, hslash]

theorem NoEnd.append {a b : List Char} (ha : NoEnd a) (hb : NoEnd b)
    (hmeet : a.getLast? ≠ some '*' ∨ b.head? ≠ some '/') : NoEnd (a ++ b) := by
  refine List.isChain_append.mpr ⟨ha, hb, ?_⟩
  rintro x hx y hy ⟨rfl, rfl⟩
  exact hmeet.elim (fun h => h hx) (fun h => h hy)

theorem head_replacePair (text : List Char) :
    (Text.replacePair '*' '/' "*&#47;".toList text).head? = text.head? := by
  cases text with
  | nil => rfl
  | cons x rest =>
    cases rest with
    | nil => rfl
    | cons y rest =>
      rw [Text.replacePair]
      split
      · next hpair => rw [hpair.1]; rfl
      · rfl

theorem noEnd_replacePair (text : List Char) :
    NoEnd (Text.replacePair '*' '/' "*&#47;".toList text) := by
  induction text using Text.replacePair.induct (a := '*') (b := '/') with
  | case1 c d rest hpair ih =>
    rw [Text.replacePair, if_pos hpair]
    exact NoEnd.append (by unfold NoEnd; decide) ih (.inl (by decide))
  | case2 c d rest hpair ih =>
    rw [Text.replacePair, if_neg hpair]
    refine List.isChain_cons.mpr ⟨fun e he => ?_, ih⟩
    rw [head_replacePair] at he
    cases he
    exact hpair
  | case3 short hshort =>
    rw [Text.replacePair]
    · cases short with
      | nil => exact .nil
      | cons c rest =>
        cases rest with
        | nil => exact .singleton c
        | cons d rest => exact absurd rfl (hshort c d rest)
    · exact hshort

theorem woven_noEnd : Woven NoEnd where
  splits := by
    refine ⟨.nil, fun {c} hc a b => noEnd_append_iff ?_ ?_ a b⟩ <;> rintro rfl <;>
      exact absurd hc (by decide)
  cut _ a b h := by
    obtain ⟨ha, hb, -⟩ := List.isChain_append.mp h
    exact ⟨ha, (List.isChain_cons.mp hb).2⟩
  opened name hname a b ha hb := by
    have htags : ∀ name ∈ tagNames, NoEnd (opening name) ∧ (opening name).getLast? ≠ some '*' := by
      unfold NoEnd
      decide
    obtain ⟨htag, hlast⟩ := htags name hname
    exact ha.append (htag.append hb (.inl hlast)) (.inr (by simp [opening]))
  closed name hname a b ha hb := by
    have htags : ∀ name ∈ tagNames, NoEnd (closing name) ∧ (closing name).getLast? ≠ some '*' := by
      unfold NoEnd
      decide
    obtain ⟨htag, hlast⟩ := htags name hname
    exact ha.append (htag.append hb (.inl hlast)) (.inr (by simp [closing]))

theorem weaves_isMarkedUp : Weaves (fun _ => True) IsMarkedUp where
  source := ⟨trivial, fun _ _ _ => by simp⟩
  digits _ := trivial
  escape text _ := isMarkedUp_escape text
  woven := woven_isMarkedUp

theorem weaves_noEnd : Weaves (fun _ => True) NoEnd where
  source := ⟨trivial, fun _ _ _ => by simp⟩
  digits _ := trivial
  escape text _ := noEnd_replacePair _
  woven := woven_noEnd

theorem IsMarkedUp.at_not_mem {text : List Char} (h : IsMarkedUp text) : '@' ∉ text := by
  obtain ⟨pieces, rfl⟩ := h
  have htags : ∀ name ∈ tagNames, '@' ∉ opening name ∧ '@' ∉ closing name := by decide
  have hentities : ∀ text ∈ entities, '@' ∉ text.toList := by decide
  intro hat
  obtain ⟨piece, -, hat⟩ := List.mem_flatMap.mp hat
  cases piece with
  | plain c hc =>
    rw [← List.mem_singleton.mp hat] at hc
    exact absurd hc (by decide)
  | opening name hname => exact (htags name hname).1 hat
  | closing name hname => exact (htags name hname).2 hat
  | entity text htext => exact hentities text htext hat

theorem NoEnd.terminator_absent {text : List Char} (h : NoEnd text) : ¬['*', '/'] <:+: text := by
  rintro ⟨before, after, rfl⟩
  obtain ⟨hstart, -, -⟩ := List.isChain_append.mp h
  obtain ⟨-, hpair, -⟩ := List.isChain_append.mp hstart
  exact (List.isChain_cons_cons.mp hpair).1 ⟨rfl, rfl⟩

theorem noEnd_description {text : Tree} {lines : List String}
    (h : renderDescription text = .ok lines) : ∀ line ∈ lines, NoEnd line.toList :=
  weaves_noEnd.renderDescription (fun _ _ => trivial) h

end ApiContract.Doc
