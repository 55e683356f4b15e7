import Mathlib.Data.List.Basic
import ApiContract.Text.Substitution

/-! # Rewriting parts of a text

A pass over a text keeps most of it and writes something else for some of its parts. Which parts
these are, in their order, and what was written for each says all that the pass has done: a
property of texts is kept by the pass when writing one of the parts anew keeps it.
-/
namespace ApiContract.Text

section Rows

variable {α : Type*} {pairs : List (List α × List α)} {text out : List α}

/-- The second row is the first, in which the first row of each pair is in order replaced by its
second row. -/
inductive Rewrites : List (List α × List α) → List α → List α → Prop
  | same (text : List α) : Rewrites [] text text
  | change {old new rest out : List α} {pairs : List (List α × List α)}
      (before : List α) (later : Rewrites pairs rest out) :
      Rewrites ((old, new) :: pairs) (before ++ (old ++ rest)) (before ++ (new ++ out))

theorem Rewrites.cons (c : α) (h : Rewrites pairs text out) :
    Rewrites pairs (c :: text) (c :: out) := by
  cases h with
  | same text => exact .same (c :: text)
  | change before later => exact .change (c :: before) later

/-- The first rows of the pairs stand in the first row. -/
theorem Rewrites.exists_of_mem (h : Rewrites pairs text out) {pair : List α × List α}
    (hpair : pair ∈ pairs) : ∃ a b, text = a ++ (pair.1 ++ b) := by
  induction h with
  | same _ => cases hpair
  | @change old new rest out pairs before later ih =>
    rcases List.mem_cons.mp hpair with rfl | hpair
    · exact ⟨before, rest, rfl⟩
    · obtain ⟨a, b, rfl⟩ := ih hpair
      exact ⟨before ++ (old ++ a), b, by simp⟩

/-- The first rows do not overlap. -/
theorem Rewrites.length_le (h : Rewrites pairs text out) {width : ℕ}
    (hpairs : ∀ pair ∈ pairs, width ≤ pair.1.length) : width * pairs.length ≤ text.length := by
  induction h with
  | same _ => exact Nat.zero_le _
  | @change old new rest out pairs before later ih =>
    obtain ⟨hold, hlater⟩ := List.forall_mem_cons.mp hpairs
    have hwidth : width ≤ old.length := hold
    have hrest := ih hlater
    simp only [List.length_cons, List.length_append, Nat.mul_succ]
    omega

/-- The induction is on the pairs, with what is rewritten already before the row. -/
theorem Rewrites.keeps {P : List α → Prop} (h : Rewrites pairs text out)
    (hpairs : ∀ pair ∈ pairs, ∀ a b, P (a ++ (pair.1 ++ b)) → P (a ++ (pair.2 ++ b))) :
    ∀ a, P (a ++ text) → P (a ++ out) := by
  induction h with
  | same _ => exact fun _ ha => ha
  | @change old new rest out pairs before later ih =>
    intro a ha
    obtain ⟨hpair, hlater⟩ := List.forall_mem_cons.mp hpairs
    have hnew := hpair (a ++ before) rest (by simpa using ha)
    simpa using ih hlater (a ++ before ++ new) (by simpa using hnew)

variable {P : List α → Prop} {parts parts' : List (List α)} {a b : List α}

/-- The row is the parts in their order, with rows of the property before, between and behind
them. -/
inductive InOrder (P : List α → Prop) : List (List α) → List α → Prop
  | last {text : List α} (h : P text) : InOrder P [] text
  | next {before part rest : List α} {parts : List (List α)} (hbefore : P before)
      (hrest : InOrder P parts rest) : InOrder P (part :: parts) (before ++ (part ++ rest))

/-- What is written for parts of a row stands in what becomes of the row. -/
theorem Rewrites.inOrder (h : Rewrites pairs text out) (hP : ∀ a b, P (a ++ b) → P a ∧ P b)
    (htext : P text) : InOrder P (pairs.map Prod.snd) out := by
  induction h with
  | same text => exact .last htext
  | change before later ih =>
    obtain ⟨hbefore, hbehind⟩ := hP _ _ htext
    exact .next hbefore (ih (hP _ _ hbehind).2)

theorem InOrder.append (hP : ∀ a b, P a → P b → P (a ++ b)) (ha : InOrder P parts a)
    (hb : InOrder P parts' b) : InOrder P (parts ++ parts') (a ++ b) := by
  induction ha with
  | @last text htext =>
    cases hb with
    | last h => exact .last (hP _ _ htext h)
    | @next before part rest later hbefore hrest =>
      rw [← List.append_assoc]
      exact .next (hP _ _ htext hbefore) hrest
  | next hbefore _ ih => simpa using InOrder.next hbefore ih

/-- The row falls apart at each of its parts. -/
theorem InOrder.split {part : List α} (h : InOrder P (parts ++ part :: parts') a) :
    ∃ before behind, a = before ++ (part ++ behind) ∧ InOrder P parts before ∧
      InOrder P parts' behind := by
  induction parts generalizing a with
  | nil =>
    cases h with
    | next hbefore hrest => exact ⟨_, _, rfl, .last hbefore, hrest⟩
  | cons first rest ih =>
    cases h with
    | next hbefore hrest =>
      obtain ⟨before, behind, rfl, hrow, hbehind⟩ := ih hrest
      exact ⟨_, behind, by simp only [List.append_assoc], .next hbefore hrow, hbehind⟩

theorem InOrder.forall_mem {p : α → Prop} (h : InOrder P parts a)
    (hP : ∀ row, P row → ∀ c ∈ row, p c) (hparts : ∀ part ∈ parts, ∀ c ∈ part, p c) :
    ∀ c ∈ a, p c := by
  induction h with
  | last h => exact hP _ h
  | next hbefore _ ih =>
    obtain ⟨hpart, hlater⟩ := List.forall_mem_cons.mp hparts
    exact List.forall_mem_append.mpr
      ⟨hP _ hbefore, List.forall_mem_append.mpr ⟨hpart, ih hlater⟩⟩

/-- An element stands in the first of two rows that are joined or in the second. -/
theorem append_cons_eq_append {x y : List α} {c : α} (h : a ++ c :: b = x ++ y) :
    (∃ more, x = a ++ c :: more ∧ b = more ++ y) ∨ ∃ more, a = x ++ more ∧ y = more ++ c :: b := by
  rcases List.append_eq_append_iff.mp h with ⟨more, rfl, hy⟩ | hbehind
  · rcases List.cons_eq_append_iff.mp hy with ⟨rfl, rfl⟩ | ⟨more, rfl, rfl⟩
    · exact .inr ⟨[], by simp, rfl⟩
    · exact .inl ⟨more, rfl, rfl⟩
  · exact .inr hbehind

/-- A cut at something that is in none of the parts leaves each of them whole, on one side. -/
theorem InOrder.cut {c : α} (hP : ∀ a b, P (a ++ c :: b) → P a ∧ P b)
    (hparts : ∀ part ∈ parts, c ∉ part) (h : InOrder P parts (a ++ c :: b)) :
    ∃ x y, parts = x ++ y ∧ InOrder P x a ∧ InOrder P y b := by
  generalize htext : a ++ c :: b = text at h
  induction h generalizing a with
  | last h =>
    obtain ⟨ha, hb⟩ := hP a b (htext ▸ h)
    exact ⟨[], [], rfl, .last ha, .last hb⟩
  | @next before part rest parts hbefore hrest ih =>
    obtain ⟨hpart, hlater⟩ := List.forall_mem_cons.mp hparts
    rcases append_cons_eq_append htext with ⟨more, rfl, rfl⟩ | ⟨more, rfl, hmore⟩
    · obtain ⟨ha, hmore⟩ := hP a more hbefore
      exact ⟨[], part :: parts, rfl, .last ha, .next hmore hrest⟩
    rcases append_cons_eq_append hmore.symm with ⟨inside, rfl, -⟩ | ⟨between, rfl, hbetween⟩
    · exact absurd (List.mem_append_right _ List.mem_cons_self) hpart
    · obtain ⟨x, y, rfl, hx, hy⟩ := ih hlater hbetween.symm
      exact ⟨part :: x, y, rfl, .next hbefore hx, hy⟩

end Rows

variable {text : List Char} {D : List Char × List Char → Prop} {rule rule' : Rule}

/-- Where the rule applies it takes some characters, and these and what it writes have the
property. -/
def Writes (D : List Char × List Char → Prop) (rule : Rule) : Prop :=
  ∀ before text width new, rule before text = some (width, new) →
    ∃ old later, text = old ++ later ∧ old ≠ [] ∧ width = old.length ∧ D (old, new)

theorem Writes.or (h : Writes D rule) (h' : Writes D rule') :
    Writes D fun before text => (rule before text).or (rule' before text) := by
  intro before text width new hnew
  rcases Option.or_eq_some_iff.mp hnew with hnew | ⟨-, hnew⟩
  · exact h before text width new hnew
  · exact h' before text width new hnew

/-- The texts that a substitution writes, when it leaves out the next `skip` characters. -/
def writtenFrom (rule : Rule) : ℕ → Option Char → List Char → List (List Char)
  | _, _, [] => []
  | skip + 1, _, c :: rest => writtenFrom rule skip (some c) rest
  | 0, before, c :: rest =>
    match rule before (c :: rest) with
    | some (width, new) => new :: writtenFrom rule (width - 1) (some c) rest
    | none => writtenFrom rule 0 (some c) rest

/-- The texts that a substitution writes, from the left. -/
def written (rule : Rule) (text : List Char) : List (List Char) := writtenFrom rule 0 none text

theorem exists_rewrites_substituteFrom (h : Writes D rule) (text : List Char) :
    ∀ skip before, ∃ pairs,
      Rewrites pairs (text.drop skip) (substituteFrom rule skip before text) ∧
      (∀ pair ∈ pairs, D pair) ∧ pairs.map Prod.snd = writtenFrom rule skip before text := by
  induction text with
  | nil =>
    intro skip before
    exact ⟨[], by cases skip <;> exact .same [], by simp, by cases skip <;> rfl⟩
  | cons c rest ih =>
    intro skip before
    cases skip with
    | succ skip => exact ih skip (some c)
    | zero =>
      rw [substituteFrom, writtenFrom]
      cases happlied : rule before (c :: rest) with
      | none =>
        obtain ⟨pairs, hrest, hall, hwritten⟩ := ih 0 (some c)
        exact ⟨pairs, hrest.cons c, hall, hwritten⟩
      | some taken =>
        obtain ⟨width, new⟩ := taken
        obtain ⟨old, later, hold, hne, rfl, hD⟩ := h before _ width new happlied
        obtain ⟨pairs, hrest, hall, hwritten⟩ := ih (old.length - 1) (some c)
        have hlater : rest.drop (old.length - 1) = later := by
          cases old with
          | nil => exact absurd rfl hne
          | cons d old =>
            obtain ⟨-, rfl⟩ := List.cons.inj hold
            exact List.drop_left
        rw [hlater] at hrest
        have hchange : Rewrites ((old, new) :: pairs) (old ++ later)
            (new ++ substituteFrom rule (old.length - 1) (some c) rest) := .change [] hrest
        rw [← hold] at hchange
        exact ⟨(old, new) :: pairs, hchange, List.forall_mem_cons.mpr ⟨hD, hall⟩,
          congrArg (new :: ·) hwritten⟩

/-- A substitution rewrites what its rule takes. -/
theorem exists_rewrites_substitute (h : Writes D rule) (text : List Char) :
    ∃ pairs, Rewrites pairs text (substitute rule text) ∧ (∀ pair ∈ pairs, D pair) ∧
      pairs.map Prod.snd = written rule text :=
  exists_rewrites_substituteFrom h text 0 none

end ApiContract.Text
