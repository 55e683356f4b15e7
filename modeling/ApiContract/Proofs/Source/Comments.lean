import ApiContract.Proofs.Lexical.Comments
import ApiContract.Proofs.Lexical.Escaped

/-! # Documentation comments in the printed source

The printed lines of a comment each begin with a star and follow on a line break. The
comment ends where it is closed at last, as long as none of its lines ends it before.
-/
namespace ApiContract.Source
open Lexical

/-- What is behind the end of a comment whose start has been read. -/
def behindEnd? : List Nat → Option (List Nat)
  | a :: b :: rest => if a = 0x2a ∧ b = 0x2f then some rest else behindEnd? (b :: rest)
  | _ => none

/-- What is behind the comment that a text starts with after its blanks. -/
def afterComment? : List Nat → Option (List Nat)
  | 0x20 :: rest => afterComment? rest
  | 0x2f :: 0x2a :: rest => behindEnd? rest
  | _ => none

/-- The source is one comment and the line break behind it. -/
def IsComment (source : String) : Prop :=
  (translate source.toList).bind afterComment? = some [0x0a]

theorem behindEnd_append {inputs : List Input} (h : inputs.IsChain fun a b => ¬IsEnd a b)
    (rest : List Nat) :
    behindEnd? (inputs.map Input.unit ++ 0x20 :: 0x2a :: 0x2f :: rest) = some rest := by
  induction inputs with
  | nil => simp [behindEnd?]
  | cons a inputs ih =>
    obtain ⟨hnext, hchain⟩ := List.isChain_cons.mp h
    have hrest := ih hchain
    cases inputs with
    | nil => simp [behindEnd?]
    | cons b inputs =>
      have hpair : ¬(a.unit = 0x2a ∧ b.unit = 0x2f) := hnext b rfl
      rw [List.map_cons, List.map_cons, List.cons_append, List.cons_append, behindEnd?,
        if_neg hpair]
      exact hrest

theorem afterComment_blanks (blanks : List Char) (h : ∀ c ∈ blanks, c = ' ') (rest : List Nat) :
    afterComment? (blanks.flatMap Text.units ++ rest) = afterComment? rest := by
  induction blanks with
  | nil => rfl
  | cons c blanks ih =>
    rw [h c List.mem_cons_self]
    exact ih fun d hd => h d (List.mem_cons_of_mem _ hd)

theorem splits_contained : Text.Splits Contained Doc.isGap := splits_reads fun _ _ h => h

theorem contained_star : Contained ['*'] := ⟨_, rfl, .singleton _⟩

theorem contained_starred {line : List Char} (h : Contained line) :
    Contained ('*' :: ' ' :: line) :=
  (splits_contained.iff (by decide) ['*'] line).mpr ⟨contained_star, h⟩

/-- The lines of a comment from its second star to the indentation of its last line. -/
def commentRows (indent : List Char) (rows : List (List Char)) : List Char :=
  '*' :: '\n' :: rows.flatMap (fun row => indent ++ ' ' :: row ++ ['\n']) ++ indent

theorem contained_commentRows {indent : List Char} (hindent : ∀ c ∈ indent, c = ' ')
    {rows : List (List Char)} (h : ∀ row ∈ rows, Contained row) :
    Contained (commentRows indent rows) := by
  have hblank : Contained indent := splits_contained.of_forall fun c hc => by
    rw [hindent c hc]
    decide
  refine (splits_contained.iff (by decide) ['*'] _).mpr ⟨contained_star, ?_⟩
  induction rows with
  | nil => exact hblank
  | cons row rows ih =>
    obtain ⟨hrow, hrows⟩ := List.forall_mem_cons.mp h
    have hline := (splits_contained.iff (c := '\n') (by decide) row _).mpr ⟨hrow, ih hrows⟩
    have hall := (splits_contained.iff (c := ' ') (by decide) indent _).mpr ⟨hblank, hline⟩
    simpa using hall

theorem isComment_rows {source : String} {indent : List Char} (hindent : ∀ c ∈ indent, c = ' ')
    (rows : List (List Char)) (h : ∀ row ∈ rows, Contained row)
    (hsource : source.toList =
      indent ++ ['/', '*'] ++ (commentRows indent rows ++ ' ' :: ['*', '/', '\n'])) :
    IsComment source := by
  obtain ⟨inputs, hread, hchain⟩ := contained_commentRows hindent h
  have hstart : Translates (indent ++ ['/', '*']) ((indent ++ ['/', '*']).flatMap Text.units) := by
    refine translates_of_plain fun c hc => ?_
    rcases List.mem_append.mp hc with hc | hc
    · rw [hindent c hc]
      decide
    · rintro rfl
      revert hc
      decide
  have hrest : translate (commentRows indent rows ++ ' ' :: ['*', '/', '\n']) =
      some (inputs.map Input.unit ++ 0x20 :: 0x2a :: 0x2f :: [0x0a]) := by
    rw [Lexical.translate, read_append (by decide), hread]
    simp [read_of_plain, plain, Text.units]
  rw [IsComment, hsource, hstart, hrest, Option.map_some, Option.bind_some, List.flatMap_append,
    List.append_assoc, afterComment_blanks _ hindent]
  exact behindEnd_append hchain _

theorem isComment_commentLines {indent : String} (hindent : ∀ c ∈ indent.toList, c = ' ')
    {lines : List String} (hne : lines ≠ []) (h : ∀ line ∈ lines, Contained line.toList) :
    IsComment (unlines (commentLines indent lines)) := by
  refine isComment_rows hindent (lines.map fun l => '*' :: ' ' :: l.toList) ?_ ?_
  · intro row hrow
    obtain ⟨line, hline, rfl⟩ := List.mem_map.mp hrow
    exact contained_starred (h line hline)
  · simp [unlines, commentLines, commentRows, hne, List.flatMap_map]

theorem isComment_methodCommentLines {lines : List String} (hne : lines ≠ [])
    (h : ∀ line ∈ lines, Contained line.toList) :
    IsComment (unlines (methodCommentLines lines)) := by
  have hindent : ∀ c ∈ [' ', ' '], c = ' ' := by simp
  refine isComment_rows hindent
    (lines.map fun l => if l.isEmpty then ['*'] else '*' :: ' ' :: l.toList) ?_ ?_
  · intro row hrow
    obtain ⟨line, hline, rfl⟩ := List.mem_map.mp hrow
    split
    · exact contained_star
    · exact contained_starred (h line hline)
  · have hrow : ∀ l : String, (if l = "" then "   *" else "   * " ++ l).toList =
        ' ' :: ' ' :: ' ' :: (if l = "" then ['*'] else '*' :: ' ' :: l.toList) := by
      intro l
      split <;> simp
    simp [unlines, methodCommentLines, commentRows, hne, List.flatMap_map, hrow]

/-- The comment of a description with no harmful escape is one comment, and each of its
lines can be translated. -/
theorem comment_of_description {text : Tree} {lines : List String}
    (hrun : Doc.renderDescription text = .ok lines)
    (htext : ∀ t, text.text? = some t → Harmless t.toList) :
    (∀ line ∈ lines, Contained line.toList) ∧
      (lines ≠ [] →
        (∀ indent : String, (∀ c ∈ indent.toList, c = ' ') →
          IsComment (unlines (commentLines indent lines))) ∧
        IsComment (unlines (methodCommentLines lines))) := by
  have hlines : ∀ line ∈ lines, Contained line.toList := fun line hline =>
    contained_of_harmless (weaves_harmless.renderDescription htext hrun line hline)
      (Doc.noEnd_description hrun line hline)
  refine ⟨hlines, fun hne => ⟨fun indent hindent => ?_, ?_⟩⟩
  · exact isComment_commentLines hindent hne hlines
  · exact isComment_methodCommentLines hne hlines

/-- A path with a harmless escape and one that is none, for its backslash is the second. -/
theorem comment_of_description_paths :
    Doc.renderDescription (.text "in C:\\\\users */ \\u0041") =
        .ok ["<p>", "in C:\\\\users *&#47; \\u0041", "</p>"] ∧
      Harmless "in C:\\\\users */ \\u0041".toList ∧
      (∀ line ∈ ["<p>", "in C:\\\\users *&#47; \\u0041", "</p>"], Contained line.toList) ∧
      IsComment (unlines (commentLines "  " ["<p>", "in C:\\\\users *&#47; \\u0041", "</p>"])) := by
  have hrun : (Doc.renderDescription (.text "in C:\\\\users */ \\u0041")).toOption.map id =
      some ["<p>", "in C:\\\\users *&#47; \\u0041", "</p>"] := by
    decide +kernel
  obtain ⟨lines, hlines, rfl⟩ := Outcome.exists_of_map_toOption hrun
  have htext : Harmless "in C:\\\\users */ \\u0041".toList := ⟨_, rfl, by decide⟩
  obtain ⟨hcontained, hcomment⟩ := comment_of_description hlines fun t ht => by
    cases ht
    exact htext
  exact ⟨hlines, htext, hcontained, (hcomment (by simp)).1 "  " (by simp)⟩

/-- An escape that stands for the slash ends the comment, and a path in which a backslash
comes before a `u` has no translation. -/
theorem comment_ended_by_escape :
    (Doc.renderDescription (.text "ends *\\u002f here") =
        .ok ["<p>", "ends *\\u002f here", "</p>"] ∧
      ¬Contained "ends *\\u002f here".toList ∧
      ¬IsComment (unlines (commentLines "" ["<p>", "ends *\\u002f here", "</p>"]))) ∧
    Doc.renderDescription (.text "see C:\\users") = .ok ["<p>", "see C:\\users", "</p>"] ∧
      translate "see C:\\users".toList = none := by
  have hended : (Doc.renderDescription (.text "ends *\\u002f here")).toOption.map id =
      some ["<p>", "ends *\\u002f here", "</p>"] := by
    decide +kernel
  have hbroken : (Doc.renderDescription (.text "see C:\\users")).toOption.map id =
      some ["<p>", "see C:\\users", "</p>"] := by
    decide +kernel
  obtain ⟨_, hended, rfl⟩ := Outcome.exists_of_map_toOption hended
  obtain ⟨_, hbroken, rfl⟩ := Outcome.exists_of_map_toOption hbroken
  refine ⟨⟨hended, ?_, ?_⟩, hbroken, by decide⟩
  · rintro ⟨inputs, hread, hchain⟩
    cases hread
    revert hchain
    decide
  · unfold IsComment
    decide +kernel

end ApiContract.Source
