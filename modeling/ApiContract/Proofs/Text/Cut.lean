import Mathlib.Data.List.TakeWhile
import ApiContract.Text.Cut

/-! # Cuts at a separator

A cut goes through everywhere at the separator: what stands before it and what stands behind it are
cut each on its own. The same holds of a search for a pair of characters, at any character that
is not in the pair.
-/
namespace ApiContract.Text

/-- What is dropped from the end of a row stood behind what is kept. -/
theorem exists_dropped {α : Type*} (p : α → Bool) (row : List α) :
    ∃ dropped, (row.reverse.dropWhile p).reverse ++ dropped = row ∧ ∀ a ∈ dropped, p a = true := by
  have hcut := congrArg List.reverse (List.takeWhile_append_dropWhile (p := p) (l := row.reverse))
  rw [List.reverse_append, List.reverse_reverse] at hcut
  exact ⟨_, hcut, fun a ha => List.mem_takeWhile_imp (List.mem_reverse.mp ha)⟩

theorem afterLast_of_not_mem {sep : Char} {text : List Char} (h : sep ∉ text) :
    afterLast sep text = text := by
  have hall : text.reverse.takeWhile (· ≠ sep) = text.reverse := by
    refine List.takeWhile_eq_self_iff.mpr fun c hc => ?_
    have hne : c ≠ sep := by
      rintro rfl
      exact h (List.mem_reverse.mp hc)
    simpa using hne
  rw [afterLast, hall, List.reverse_reverse]

/-- What stands after the last separator does not depend on what stands before it. -/
theorem afterLast_append (sep : Char) (before after : List Char) :
    afterLast sep (before ++ sep :: after) = afterLast sep after := by
  have hstop : ∀ text rest : List Char,
      (text ++ sep :: rest).takeWhile (· ≠ sep) = text.takeWhile (· ≠ sep) := by
    intro text rest
    induction text with
    | nil => simp
    | cons c text ih =>
      by_cases hc : c = sep
      · simp [hc]
      · simp only [List.cons_append, List.takeWhile_cons, ih]
  rw [afterLast, afterLast, List.reverse_append, List.reverse_cons, List.append_assoc,
    List.singleton_append, hstop]

theorem splitWhere_of_none {p : Char → Bool} {text : List Char} (h : ∀ c ∈ text, p c = false) :
    splitWhere p text = [text] := by
  induction text with
  | nil => rfl
  | cons c text ih =>
    obtain ⟨hc, hrest⟩ := List.forall_mem_cons.mp h
    simp [splitWhere, hc, ih hrest]

theorem splitAt_of_not_mem {sep : Char} {text : List Char} (h : sep ∉ text) :
    splitAt sep text = [text] :=
  splitWhere_of_none fun _ hc => beq_eq_false_iff_ne.mpr fun heq => h (heq ▸ hc)

/-- A cut goes through at each character of the class. -/
theorem splitWhere_append {p : Char → Bool} {c : Char} (hc : p c = true)
    (before after : List Char) :
    splitWhere p (before ++ c :: after) = splitWhere p before ++ splitWhere p after := by
  induction before with
  | nil => simp [splitWhere, hc]
  | cons d before ih =>
    by_cases hd : p d = true
    · simp [splitWhere, hd, ih]
    · cases hs : splitWhere p before with
      | nil => exact absurd hs (splitWhere_ne_nil _ _)
      | cons piece pieces => simp [splitWhere, hd, ih, hs]

theorem splitAt_append (sep : Char) (before after : List Char) :
    splitAt sep (before ++ sep :: after) = splitAt sep before ++ splitAt sep after :=
  splitWhere_append (p := (· == sep)) (beq_self_eq_true sep) before after

theorem getLast?_splitAt (sep : Char) (text : List Char) :
    (splitAt sep text).getLast? = some (afterLast sep text) := by
  induction hn : text.length using Nat.strong_induction_on generalizing text with
  | _ n ih =>
    subst hn
    by_cases h : sep ∈ text
    · obtain ⟨before, after, rfl, -⟩ := List.eq_append_cons_of_mem h
      have hshorter : after.length < (before ++ sep :: after).length := by
        simp only [List.length_append, List.length_cons]
        omega
      have hlast := ih after.length hshorter after rfl
      rw [splitAt_append, afterLast_append, List.getLast?_append, hlast, Option.some_or]
    · rw [splitAt_of_not_mem h, afterLast_of_not_mem h, List.getLast?_singleton]

/-- A split undoes joining, when there is something to join and no separator in it. -/
theorem splitAt_joinWith {sep : Char} {pieces : List (List Char)} (hne : pieces ≠ [])
    (h : ∀ piece ∈ pieces, sep ∉ piece) : splitAt sep (joinWith [sep] pieces) = pieces := by
  induction pieces with
  | nil => exact absurd rfl hne
  | cons piece rest ih =>
    have hpiece := splitAt_of_not_mem (h piece List.mem_cons_self)
    cases rest with
    | nil => exact hpiece
    | cons next rest =>
      have hrest := ih (List.cons_ne_nil _ _) fun q hq => h q (List.mem_cons_of_mem _ hq)
      rw [joinWith, List.append_assoc, List.singleton_append, splitAt_append, hpiece, hrest,
        List.singleton_append]
      exact List.cons_ne_nil next rest

theorem joinWith_append_singleton {sep : List Char} {pieces : List (List Char)} (hne : pieces ≠ [])
    (last : List Char) :
    joinWith sep (pieces ++ [last]) = joinWith sep pieces ++ sep ++ last := by
  induction pieces with
  | nil => exact absurd rfl hne
  | cons piece rest ih =>
    cases rest with
    | nil => simp [joinWith]
    | cons next rest =>
      have hrest := ih (List.cons_ne_nil _ _)
      simp only [List.cons_append] at hrest ⊢
      simp [joinWith, hrest]

theorem length_splitWhere (p : Char → Bool) (text : List Char) :
    (splitWhere p text).length = text.countP p + 1 := by
  induction text with
  | nil => rfl
  | cons c rest ih =>
    cases hc : p c with
    | true => simp [splitWhere, hc, ih]
    | false =>
      cases hs : splitWhere p rest with
      | nil => exact absurd hs (splitWhere_ne_nil p rest)
      | cons piece pieces =>
        rw [hs] at ih
        simpa [splitWhere, hc, hs] using ih

/-- Joining adds one separator for each piece but the first. -/
theorem count_joinWith {sep : Char} {pieces : List (List Char)} (hne : pieces ≠ []) :
    (joinWith [sep] pieces).count sep + 1 = pieces.length + pieces.flatten.count sep := by
  induction pieces with
  | nil => exact absurd rfl hne
  | cons piece rest ih =>
    cases rest with
    | nil => simp [joinWith, Nat.add_comm]
    | cons next rest =>
      have hrest := ih (List.cons_ne_nil _ _)
      rw [List.flatten_cons, List.count_append]
      simp only [joinWith, List.count_append, List.count_singleton_self, List.length_cons]
        at hrest ⊢
      omega

/-- Joined pieces are cut into as many pieces again only if no piece has a separator. -/
theorem not_mem_of_length_splitAt {sep : Char} {pieces : List (List Char)} (hne : pieces ≠ [])
    (h : (splitAt sep (joinWith [sep] pieces)).length = pieces.length) :
    ∀ piece ∈ pieces, sep ∉ piece := by
  have hcount : (joinWith [sep] pieces).count sep + 1 = _ := count_joinWith hne
  have hlength : (joinWith [sep] pieces).count sep + 1 = pieces.length :=
    (length_splitWhere (· == sep) _).symm.trans h
  have hnone : pieces.flatten.count sep = 0 := by omega
  intro piece hpiece hsep
  exact List.count_eq_zero.mp hnone (List.mem_flatten_of_mem hpiece hsep)

section Runs

variable {p : Char → Bool} {c : Char}

theorem flatten_splitWhere (p : Char → Bool) (text : List Char) :
    (splitWhere p text).flatten = text.filter fun c => !p c := by
  induction text with
  | nil => rfl
  | cons c rest ih =>
    cases hc : p c with
    | true => simp [splitWhere, hc, ih]
    | false =>
      cases hs : splitWhere p rest with
      | nil => exact absurd hs (splitWhere_ne_nil p rest)
      | cons piece pieces =>
        rw [hs] at ih
        simpa [splitWhere, hc, hs] using ih

/-- One after the other, the runs of a class are all of its characters in the text. -/
theorem flatten_runs (p : Char → Bool) (text : List Char) :
    (runs p text).flatten = text.filter p := by
  rw [runs, List.flatten_filter_ne_nil, flatten_splitWhere]
  simp

theorem of_mem_runs {text run : List Char} (h : run ∈ runs p text) :
    run ≠ [] ∧ ∀ c ∈ run, p c = true := by
  obtain ⟨hrun, hne⟩ := List.mem_filter.mp h
  refine ⟨of_decide_eq_true hne, fun c hc => ?_⟩
  simpa using splitWhere_avoids (fun c => !p c) text run hrun c hc

theorem runs_cons_of_not (hc : p c = false) (text : List Char) :
    runs p (c :: text) = runs p text := by
  simp [runs, splitWhere, hc]

/-- Texts with the same runs that start with the same run, which may be empty. -/
structure SameRuns (p : Char → Bool) (text text' : List Char) : Prop where
  runs : runs p text = runs p text'
  first : (splitWhere (fun c => !p c) text).head? = (splitWhere (fun c => !p c) text').head?

/-- A character of the class goes into the first run, and any other goes before it. -/
theorem sameRuns_cons {text text' : List Char} (hruns : runs p text = runs p text')
    (hfirst : p c = true → SameRuns p text text') : SameRuns p (c :: text) (c :: text') := by
  cases hc : p c with
  | false =>
    refine ⟨?_, ?_⟩
    · rw [runs_cons_of_not hc, runs_cons_of_not hc, hruns]
    · simp [splitWhere, hc]
  | true =>
    have hsame := (hfirst hc).first
    cases hs : splitWhere (fun c => !p c) text with
    | nil => exact absurd hs (splitWhere_ne_nil _ _)
    | cons piece pieces =>
      cases hs' : splitWhere (fun c => !p c) text' with
      | nil => exact absurd hs' (splitWhere_ne_nil _ _)
      | cons piece' pieces' =>
        rw [hs, hs'] at hsame
        obtain rfl : piece = piece' := Option.some.inj hsame
        have hpieces : pieces.filter (· ≠ []) = pieces'.filter (· ≠ []) := by
          rw [Text.runs, Text.runs, hs, hs'] at hruns
          by_cases hpiece : piece = []
          · simpa [hpiece] using hruns
          · simpa [hpiece] using hruns
        refine ⟨?_, ?_⟩
        · simpa [Text.runs, splitWhere, hc, hs, hs'] using hpieces
        · simp [splitWhere, hc, hs, hs']

end Runs

section Pair

variable {a b x y : Char} {new rest : List Char}

theorem replacePair_pair :
    replacePair a b new (a :: b :: rest) = new ++ replacePair a b new rest := by
  rw [replacePair, if_pos ⟨rfl, rfl⟩]

theorem replacePair_cons_of_ne (h : x ≠ a) :
    replacePair a b new (x :: rest) = x :: replacePair a b new rest := by
  cases rest with
  | nil => rfl
  | cons y rest => rw [replacePair, if_neg fun hpair => h hpair.1]

theorem replacePair_cons_cons_of_ne (h : y ≠ b) :
    replacePair a b new (x :: y :: rest) = x :: replacePair a b new (y :: rest) := by
  rw [replacePair, if_neg fun hpair => h hpair.2]

/-- A character that is not in the pair parts the text. -/
theorem replacePair_append_cons {c : Char} (ha : c ≠ a) (hb : c ≠ b) (before after : List Char) :
    replacePair a b new (before ++ c :: after) =
      replacePair a b new before ++ c :: replacePair a b new after := by
  induction before using replacePair.induct (a := a) (b := b) with
  | case1 x y rest hpair ih =>
    obtain ⟨rfl, rfl⟩ := hpair
    simp only [List.cons_append, replacePair_pair, ih, List.append_assoc]
  | case2 x y rest hpair ih =>
    rw [List.cons_append, List.cons_append, replacePair, if_neg hpair, replacePair, if_neg hpair]
    exact congrArg (x :: ·) ih
  | case3 short hshort =>
    cases short with
    | nil => exact replacePair_cons_of_ne ha
    | cons x rest =>
      cases rest with
      | nil =>
        rw [List.singleton_append, replacePair_cons_cons_of_ne hb, replacePair_cons_of_ne ha]
        rfl
      | cons y rest => exact absurd rfl (hshort x y rest)

end Pair

end ApiContract.Text
