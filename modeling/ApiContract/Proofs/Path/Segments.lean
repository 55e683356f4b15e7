import Mathlib.Data.List.DropRight
import Mathlib.Data.List.Infix
import ApiContract.Path.Template

/-! # Segments and shapes of templates

A template that starts with a slash and has no empty segment but at its end is its
segments, each behind a slash, and some slashes at the end. Cutting it gives the segments
back, and neither the segments nor the shape of a template tell of the slashes at its end.
-/
namespace ApiContract.Path

/-- The segments, each behind a slash. -/
def rooted (segments : List (List Char)) : List Char := segments.flatMap fun s => '/' :: s

/-- The path of some segments; that of none is a slash. -/
def pathOf (segments : List (List Char)) : List Char :=
  if segments = [] then ['/'] else rooted segments

def Proper (segments : List (List Char)) : Prop := ∀ s ∈ segments, s ≠ [] ∧ '/' ∉ s

def slashes (n : Nat) : List Char := List.replicate n '/'

/-- A template that starts with a slash and has no empty segment but at its end. -/
structure Regular (template : String) : Prop where
  root : template.toList.head? = some '/'
  cut : dropSlashes template.toList = rooted (segmentChars template.toList)

instance (template : String) : Decidable (Regular template) :=
  decidable_of_iff (template.toList.head? = some '/' ∧
    dropSlashes template.toList = rooted (segmentChars template.toList))
    ⟨fun h => ⟨h.1, h.2⟩, fun h => ⟨h.root, h.cut⟩⟩

variable {s text : List Char} {segments : List (List Char)}

@[simp] theorem rooted_nil : rooted [] = [] := rfl

@[simp] theorem rooted_cons (s : List Char) (segments : List (List Char)) :
    rooted (s :: segments) = '/' :: (s ++ rooted segments) := by
  simp [rooted]

@[simp] theorem rooted_append (a b : List (List Char)) : rooted (a ++ b) = rooted a ++ rooted b :=
  List.flatMap_append

@[simp] theorem pathOf_nil : pathOf [] = ['/'] := rfl

@[simp] theorem pathOf_cons (s : List Char) (segments : List (List Char)) :
    pathOf (s :: segments) = rooted (s :: segments) := by
  simp [pathOf]

theorem Proper.pathOf_eq_iff (h : Proper segments) : pathOf segments = ['/'] ↔ segments = [] := by
  cases segments with
  | nil => simp
  | cons s rest =>
    have hs := (h s List.mem_cons_self).1
    simp [hs]

theorem Proper.append_iff {a b : List (List Char)} : Proper (a ++ b) ↔ Proper a ∧ Proper b :=
  List.forall_mem_append

theorem segmentChars_slash (text : List Char) : segmentChars ('/' :: text) = segmentChars text := by
  simp [segmentChars, Text.splitAt, Text.splitWhere]

/-- A segment ends at the first slash behind it or at the end of the text. -/
theorem splitAt_segment (hs : '/' ∉ s) (ht : ∀ c ∈ text.head?, c = '/') :
    ∃ rest, Text.splitAt '/' (s ++ text) = s :: rest ∧ Text.splitAt '/' text = [] :: rest := by
  induction s with
  | nil =>
    cases text with
    | nil => exact ⟨[], rfl, rfl⟩
    | cons c text =>
      obtain rfl := ht c rfl
      exact ⟨Text.splitAt '/' text, by simp [Text.splitAt, Text.splitWhere],
        by simp [Text.splitAt, Text.splitWhere]⟩
  | cons c s ih =>
    obtain ⟨rest, hrest, htext⟩ := ih (List.not_mem_of_not_mem_cons hs)
    have hc : (c == '/') = false := by simpa using Ne.symm (List.ne_of_not_mem_cons hs)
    rw [Text.splitAt] at hrest
    exact ⟨rest, by simp [Text.splitAt, Text.splitWhere, hc, hrest], htext⟩

theorem segmentChars_segment (hs : s ≠ [] ∧ '/' ∉ s) (ht : ∀ c ∈ text.head?, c = '/') :
    segmentChars (s ++ text) = s :: segmentChars text := by
  obtain ⟨rest, hrest, htext⟩ := splitAt_segment hs.2 ht
  simp [segmentChars, hrest, htext, hs.1]

theorem segmentChars_slashes (n : Nat) : segmentChars (slashes n) = [] := by
  induction n with
  | zero => rfl
  | succ n ih => rw [slashes, List.replicate_succ, segmentChars_slash, ← slashes, ih]

theorem head?_rooted_slashes (segments : List (List Char)) (n : Nat) :
    ∀ c ∈ (rooted segments ++ slashes n).head?, c = '/' := by
  cases segments with
  | nil => cases n <;> simp [slashes, List.replicate_succ]
  | cons s rest => simp

/-- Cutting gives back the segments that a template was made of. -/
theorem segmentChars_rooted (h : Proper segments) (n : Nat) :
    segmentChars (rooted segments ++ slashes n) = segments := by
  induction segments with
  | nil => exact segmentChars_slashes n
  | cons s rest ih =>
    have hrest : Proper rest := fun t ht => h t (List.mem_cons_of_mem _ ht)
    rw [rooted_cons, List.cons_append, segmentChars_slash, List.append_assoc,
      segmentChars_segment (h s List.mem_cons_self) (head?_rooted_slashes rest n), ih hrest]

/-- Cutting at every slash gives back segments without slashes, behind an empty one. -/
theorem splitAt_rooted (h : ∀ s ∈ segments, '/' ∉ s) :
    Text.splitAt '/' (rooted segments) = [] :: segments := by
  induction segments with
  | nil => rfl
  | cons s rest ih =>
    have hrest := ih fun t ht => h t (List.mem_cons_of_mem _ ht)
    have hhead := head?_rooted_slashes rest 0
    rw [show slashes 0 = [] from rfl, List.append_nil] at hhead
    obtain ⟨cut, hcut, hempty⟩ := splitAt_segment (h s List.mem_cons_self) hhead
    obtain rfl : cut = rest := (List.cons.inj (hempty.symm.trans hrest)).2
    rw [rooted_cons, ← hcut]
    simp [Text.splitAt, Text.splitWhere]

theorem segmentChars_pathOf (h : Proper segments) : segmentChars (pathOf segments) = segments := by
  cases segments with
  | nil => rfl
  | cons s rest => simpa [slashes] using segmentChars_rooted h 0

theorem proper_segmentChars (text : List Char) : Proper (segmentChars text) := by
  intro s hs
  obtain ⟨hs, hne⟩ := List.mem_filter.mp hs
  refine ⟨by simpa using hne, fun hslash => ?_⟩
  have hno := Text.splitWhere_avoids (· == '/') text s hs '/' hslash
  simp at hno

theorem dropSlashes_append_slashes (text : List Char) (n : Nat) :
    dropSlashes (text ++ slashes n) = dropSlashes text := by
  have hall : ∀ c ∈ slashes n, (c == '/') = true := by simp [slashes]
  simp only [dropSlashes, Text.dropTrailing, List.reverse_append]
  rw [List.dropWhile_append_of_pos]
  simpa using hall

theorem exists_slashes (text : List Char) : ∃ n, text = dropSlashes text ++ slashes n := by
  refine ⟨(text.rtakeWhile (· == '/')).length, ?_⟩
  have hall : text.rtakeWhile (· == '/') = slashes (text.rtakeWhile (· == '/')).length :=
    List.eq_replicate_iff.mpr ⟨rfl, fun c hc => by simpa using List.mem_rtakeWhile_imp hc⟩
  rw [← hall]
  exact List.rdropWhile_append_rtakeWhile.symm

theorem Regular.toList {template : String} (h : Regular template) :
    ∃ n, template.toList = rooted (segmentChars template.toList) ++ slashes n :=
  h.cut ▸ exists_slashes template.toList

theorem dropSlashes_rooted (h : Proper segments) :
    dropSlashes (rooted segments) = rooted segments := by
  rcases segments.eq_nil_or_concat' with rfl | ⟨init, last, rfl⟩
  · rfl
  · obtain ⟨hne, hslash⟩ := h last (by simp)
    obtain ⟨text, c, rfl⟩ := last.eq_nil_or_concat'.resolve_left hne
    have hc : ¬(c == '/') = true := by
      have hne : c ≠ '/' := fun hc => hslash (by simp [hc])
      simpa using hne
    rw [show rooted (init ++ [text ++ [c]]) = (rooted init ++ '/' :: text) ++ [c] by simp]
    exact List.rdropWhile_concat_neg _ _ _ hc

/-- Whether a brace opens a placeholder shows by the next brace. -/
theorem placeholderName?_brace {name : List Char} {c : Char} (tail : List Char)
    (hn : ∀ d ∈ name, (!isBrace d) = true) (hc : isBrace c = true) :
    placeholderName? (name ++ c :: tail) =
      if name ≠ [] ∧ c = '\x7d' then some name else none := by
  have htake : (name ++ c :: tail).takeWhile (fun d => !isBrace d) = name := by
    rw [List.takeWhile_append_of_pos hn, List.takeWhile_cons_of_neg (by simp [hc]), List.append_nil]
  have hdrop : (name ++ c :: tail).dropWhile (fun d => !isBrace d) = c :: tail := by
    rw [List.dropWhile_append_of_pos hn, List.dropWhile_cons_of_neg (by simp [hc])]
  simp only [placeholderName?, htake, hdrop]
  split <;> simp_all

theorem placeholderName?_of_no_brace (h : ∀ c ∈ text, (!isBrace c) = true) :
    placeholderName? text = none := by
  have hdrop : text.dropWhile (fun c => !isBrace c) = [] := List.dropWhile_eq_nil_iff.mpr h
  simp only [placeholderName?, hdrop]
  split <;> simp_all

/-- A text has a first brace, or it has none. -/
theorem exists_first_brace (text : List Char) : (∀ c ∈ text, (!isBrace c) = true) ∨
    ∃ name c tail, text = name ++ c :: tail ∧ (∀ d ∈ name, (!isBrace d) = true) ∧
      isBrace c = true := by
  cases hd : text.dropWhile (fun c => !isBrace c) with
  | nil => exact Or.inl (List.dropWhile_eq_nil_iff.mp hd)
  | cons c tail =>
    refine Or.inr ⟨text.takeWhile (fun c => !isBrace c), c, tail, ?_, ?_, ?_⟩
    · rw [← hd, List.takeWhile_append_dropWhile]
    · exact fun d hd => List.mem_takeWhile_imp (p := fun c => !isBrace c) hd
    · have hhead := List.head?_dropWhile_not (fun c => !isBrace c) text
      simpa [hd] using hhead

theorem placeholderName?_append_slashes (text : List Char) (n : Nat) :
    placeholderName? (text ++ slashes n) = placeholderName? text := by
  rcases exists_first_brace text with h | ⟨name, c, tail, rfl, hn, hc⟩
  · rw [placeholderName?_of_no_brace h, placeholderName?_of_no_brace]
    intro c hc
    rcases List.mem_append.mp hc with hc | hc
    · exact h c hc
    · rw [List.eq_of_mem_replicate hc]
      rfl
  · rw [List.append_assoc, List.cons_append, placeholderName?_brace _ hn hc,
      placeholderName?_brace tail hn hc]

theorem length_lt_of_placeholderName? {name : List Char} (h : placeholderName? text = some name) :
    name.length < text.length := by
  rcases exists_first_brace text with hnone | ⟨front, c, tail, rfl, hn, hc⟩
  · rw [placeholderName?_of_no_brace hnone] at h
    cases h
  · rw [placeholderName?_brace tail hn hc] at h
    split at h
    · cases h
      simp
    · cases h

/-- Slashes at the end are outside of all placeholders. -/
theorem eraseNames_append_slashes (text : List Char) (n : Nat) {skip : Nat}
    (hs : skip ≤ text.length) :
    eraseNames skip (text ++ slashes n) = eraseNames skip text ++ slashes n := by
  induction text generalizing skip with
  | nil =>
    obtain rfl := Nat.le_zero.mp hs
    induction n with
    | zero => rfl
    | succ n ih => simpa [slashes, List.replicate_succ, eraseNames] using ih
  | cons c rest ih =>
    cases skip with
    | succ skip => exact ih (Nat.le_of_succ_le_succ hs)
    | zero =>
      simp only [List.cons_append, eraseNames, placeholderName?_append_slashes]
      by_cases hc : c = '\x7b'
      · simp only [hc, if_true]
        cases hp : placeholderName? rest with
        | none => simp [ih (Nat.zero_le _)]
        | some name => simp [ih (length_lt_of_placeholderName? hp)]
      · simp [hc, ih (Nat.zero_le _)]

/-- The shape of a template does not tell of slashes at its end. -/
theorem shapeChars_append_slashes (text : List Char) (n : Nat) :
    shapeChars (text ++ slashes n) = shapeChars text := by
  rw [shapeChars, shapeChars, eraseNames_append_slashes text n (Nat.zero_le _),
    dropSlashes_append_slashes]

end ApiContract.Path
