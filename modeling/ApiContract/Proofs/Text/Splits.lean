import ApiContract.Proofs.Text.Cut
import ApiContract.Text.Blank
import ApiContract.Text.Substitution

/-! # Properties that split at a character

Texts are cut, joined, stripped and rewritten in many passes. A property that holds of
a text exactly when it holds on either side of each character of a class is kept by
all passes that work at such characters only.
-/
namespace ApiContract.Text

/-- At each character of the class, a text has the property exactly when both sides do. -/
structure Splits (P : List Char → Prop) (p : Char → Bool) : Prop where
  nil : P []
  iff : ∀ {c}, p c = true → ∀ a b, P (a ++ c :: b) ↔ P a ∧ P b

variable {P : List Char → Prop} {p q : Char → Bool}

theorem Splits.mono (h : Splits P q) (hpq : ∀ c, p c = true → q c = true) : Splits P p :=
  ⟨h.nil, fun hc => h.iff (hpq _ hc)⟩

section

variable (hP : Splits P p)
include hP

theorem Splits.of_forall {text : List Char} (h : ∀ c ∈ text, p c = true) : P text := by
  induction text with
  | nil => exact hP.nil
  | cons c rest ih =>
    exact (hP.iff (h c List.mem_cons_self) [] rest).mpr
      ⟨hP.nil, ih fun d hd => h d (List.mem_cons_of_mem _ hd)⟩

theorem Splits.of_append_right {a b : List Char} (ha : ∀ c ∈ a, p c = true) (h : P (a ++ b)) :
    P b := by
  induction a with
  | nil => exact h
  | cons c a ih =>
    have hsplit := (hP.iff (ha c List.mem_cons_self) [] (a ++ b)).mp h
    exact ih (fun d hd => ha d (List.mem_cons_of_mem _ hd)) hsplit.2

theorem Splits.of_append_left {a b : List Char} (hb : ∀ c ∈ b, p c = true) (h : P (a ++ b)) :
    P a := by
  cases b with
  | nil => simpa using h
  | cons c b => exact ((hP.iff (hb c List.mem_cons_self) a b).mp h).1

theorem Splits.dropWhile (hqp : ∀ c, q c = true → p c = true) {text : List Char} (h : P text) :
    P (text.dropWhile q) := by
  rw [← List.takeWhile_append_dropWhile (p := q) (l := text)] at h
  exact hP.of_append_right (fun c hc => hqp c (List.mem_takeWhile_imp hc)) h

theorem Splits.dropTrailing (hqp : ∀ c, q c = true → p c = true) {text : List Char} (h : P text) :
    P (Text.dropTrailing q text) := by
  obtain ⟨dropped, htext, hdropped⟩ := exists_dropped q text
  rw [← htext] at h
  exact hP.of_append_left (fun c hc => hqp c (hdropped c hc)) h

theorem Splits.strip (hblank : ∀ c, isBlank c = true → p c = true) {text : List Char}
    (h : P text) : P (Text.strip text) :=
  hP.dropTrailing hblank (hP.dropWhile hblank h)

theorem Splits.joinWith_iff {c : Char} (hc : p c = true) (pieces : List (List Char)) :
    P (joinWith [c] pieces) ↔ ∀ piece ∈ pieces, P piece := by
  induction pieces with
  | nil => simpa [joinWith] using hP.nil
  | cons piece rest ih =>
    cases rest with
    | nil => simp [joinWith]
    | cons next rest =>
      have hsplit := hP.iff hc piece (joinWith [c] (next :: rest))
      rw [List.forall_mem_cons, ← ih, ← hsplit]
      simp [joinWith]

theorem Splits.splitAt {c : Char} (hc : p c = true) {text : List Char} (h : P text) :
    ∀ piece ∈ Text.splitAt c text, P piece := by
  rw [← joinWith_splitAt c text] at h
  exact (hP.joinWith_iff hc _).mp h

end

/-- The induction is on the text behind what is rewritten already. -/
theorem replacePair_keeps {x y : Char} {new : List Char}
    (hnew : ∀ a b, P (a ++ x :: y :: b) → P (a ++ (new ++ b))) (text : List Char) :
    ∀ a, P (a ++ text) → P (a ++ replacePair x y new text) := by
  induction text using replacePair.induct (a := x) (b := y) with
  | case1 c d rest hpair ih =>
    intro a h
    obtain ⟨rfl, rfl⟩ := hpair
    have hrest := ih (a ++ new) (by simpa using hnew a rest h)
    rw [replacePair, if_pos ⟨rfl, rfl⟩]
    simpa using hrest
  | case2 c d rest hpair ih =>
    intro a h
    have hrest := ih (a ++ [c]) (by simpa using h)
    rw [replacePair, if_neg hpair]
    simpa using hrest
  | case3 short hshort =>
    intro a h
    rw [replacePair]
    · exact h
    · exact hshort

/-- A content that is found stands before a place where it may be closed. -/
theorem shortestContent_append {closes : Char → List Char → Bool} {text content : List Char}
    (h : shortestContent? closes text = some content) :
    ∃ last more, text = content ++ more ∧ closes last more = true := by
  induction text generalizing content with
  | nil => cases h
  | cons c rest ih =>
    rw [shortestContent?] at h
    split at h
    · cases h
    split at h
    · next hcloses =>
      cases h
      exact ⟨c, rest, rfl, hcloses⟩
    · obtain ⟨inner, hinner, rfl⟩ := Option.map_eq_some_iff.mp h
      obtain ⟨last, more, rfl, hmore⟩ := ih hinner
      exact ⟨last, more, rfl, hmore⟩

end ApiContract.Text
