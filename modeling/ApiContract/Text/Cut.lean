/-! # Cutting and joining text

Texts are lists of characters here. A cut at a separator and a join with it are
inverse to each other, which is what paths, packages and pointers rest on.
-/
namespace ApiContract.Text

/-- The pieces between the characters of a class; the empty text has one empty piece. -/
def splitWhere (p : Char → Bool) : List Char → List (List Char)
  | [] => [[]]
  | c :: rest =>
    if p c then [] :: splitWhere p rest
    else match splitWhere p rest with
      | piece :: pieces => (c :: piece) :: pieces
      | [] => [[c]]

def splitAt (sep : Char) (text : List Char) : List (List Char) := splitWhere (· == sep) text

def runs (p : Char → Bool) (text : List Char) : List (List Char) :=
  (splitWhere (fun c => !p c) text).filter (· ≠ [])

def joinWith (sep : List Char) : List (List Char) → List Char
  | [] => []
  | [piece] => piece
  | piece :: pieces => piece ++ sep ++ joinWith sep pieces

/-- Writes the new text for every occurrence of the pair, from the left. -/
def replacePair (a b : Char) (new : List Char) : List Char → List Char
  | x :: y :: rest =>
    if x = a ∧ y = b then new ++ replacePair a b new rest
    else x :: replacePair a b new (y :: rest)
  | short => short

def replaceChar (a : Char) (new : List Char) (text : List Char) : List Char :=
  text.flatMap fun c => if c = a then new else [c]

def afterLast (sep : Char) (text : List Char) : List Char :=
  (text.reverse.takeWhile (· ≠ sep)).reverse

def beforeLast (sep : Char) (text : List Char) : List Char :=
  if sep ∈ text then ((text.reverse.dropWhile (· ≠ sep)).drop 1).reverse else text

def startsWith (start text : List Char) : Bool := start.isPrefixOf text

def contains (part : List Char) : List Char → Bool
  | [] => part.isEmpty
  | c :: rest => part.isPrefixOf (c :: rest) || contains part rest

theorem splitWhere_ne_nil (p : Char → Bool) (text : List Char) : splitWhere p text ≠ [] := by
  cases text with
  | nil => simp [splitWhere]
  | cons c rest => unfold splitWhere; split <;> (try split) <;> simp

/-- Joining undoes a split. -/
theorem joinWith_splitAt (sep : Char) (text : List Char) :
    joinWith [sep] (splitAt sep text) = text := by
  induction text with
  | nil => rfl
  | cons c rest ih =>
    have hne := splitWhere_ne_nil (· == sep) rest
    unfold splitAt at ih ⊢
    unfold splitWhere
    cases hs : splitWhere (· == sep) rest with
    | nil => exact absurd hs hne
    | cons p ps =>
      rw [hs] at ih
      split
      · next h => simp only [beq_iff_eq] at h; subst h; simp [joinWith, ih]
      · cases ps <;> simpa [joinWith] using ih

/-- No piece of a split holds a character of the class. -/
theorem splitWhere_avoids (p : Char → Bool) (text : List Char) :
    ∀ piece ∈ splitWhere p text, ∀ c ∈ piece, p c = false := by
  induction text with
  | nil => simp [splitWhere]
  | cons c rest ih =>
    unfold splitWhere
    split
    · intro piece h
      rcases List.mem_cons.mp h with rfl | h
      · simp
      · exact ih piece h
    · next hc =>
      cases hs : splitWhere p rest with
      | nil => exact absurd hs (splitWhere_ne_nil p rest)
      | cons q qs =>
        rw [hs] at ih
        intro piece h
        rcases List.mem_cons.mp h with rfl | h
        · intro d hd
          rcases List.mem_cons.mp hd with rfl | hd
          · simpa using hc
          · exact ih q (List.mem_cons_self ..) d hd
        · exact ih piece (List.mem_cons_of_mem _ h)

end ApiContract.Text
