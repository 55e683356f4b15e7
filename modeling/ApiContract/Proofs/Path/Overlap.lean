import ApiContract.Proofs.Path.Segments

/-! # Templates that overlap

Two templates overlap when they differ at most in what their innermost braces hold and in
the slashes at their end. Erasing names keeps everything outside of such braces, so that
templates overlap exactly when they have one shape, and the shape of a shape is itself.
-/
namespace ApiContract.Path

variable {a b s t : List Char}

def BraceFree (name : List Char) : Prop := ∀ c ∈ name, (!isBrace c) = true

/-- Templates that differ at most in what their innermost braces hold. -/
inductive Renamed : List Char → List Char → Prop
  | nil : Renamed [] []
  | char (c : Char) {s t : List Char} (rest : Renamed s t) : Renamed (c :: s) (c :: t)
  | group {a b s t : List Char} (old : BraceFree a) (new : BraceFree b) (rest : Renamed s t) :
      Renamed ('\x7b' :: (a ++ '\x7d' :: s)) ('\x7b' :: (b ++ '\x7d' :: t))

/-- Templates that are equal once names are renamed and slashes at the end dropped. -/
def Overlap (s t : String) : Prop := Renamed (dropSlashes s.toList) (dropSlashes t.toList)

/-- Whether a brace closes the pair that has just been opened. -/
def Closes (text : List Char) : Prop := ∃ name rest, text = name ++ '\x7d' :: rest ∧ BraceFree name

theorem eraseNames_skip (n : Nat) (text : List Char) :
    eraseNames n text = eraseNames 0 (text.drop n) := by
  induction text generalizing n with
  | nil => simp [eraseNames]
  | cons c rest ih =>
    cases n with
    | zero => rfl
    | succ n => exact ih n

theorem eraseNames_char {c : Char} (hc : c ≠ '\x7b') (s : List Char) :
    eraseNames 0 (c :: s) = c :: eraseNames 0 s := by
  simp [eraseNames, hc]

theorem eraseNames_group (ha : BraceFree a) (s : List Char) :
    eraseNames 0 ('\x7b' :: (a ++ '\x7d' :: s)) = '\x7b' :: '\x7d' :: eraseNames 0 s := by
  by_cases hne : a = []
  · subst hne
    have hnone : placeholderName? ('\x7d' :: s) = none := placeholderName?_brace s ha rfl
    simp [eraseNames, hnone]
  · have hname : placeholderName? (a ++ '\x7d' :: s) = some a := by
      rw [placeholderName?_brace s ha rfl, if_pos ⟨hne, rfl⟩]
    simp [eraseNames, hname, eraseNames_skip (a.length + 1)]

/-- A brace that is not closed stays as it is. -/
theorem eraseNames_open (hs : ¬Closes s) :
    eraseNames 0 ('\x7b' :: s) = '\x7b' :: eraseNames 0 s := by
  have hnone : placeholderName? s = none := by
    rcases exists_first_brace s with h | ⟨name, c, rest, rfl, hn, hc⟩
    · exact placeholderName?_of_no_brace h
    · rw [placeholderName?_brace rest hn hc, if_neg]
      rintro ⟨-, rfl⟩
      exact hs ⟨name, rest, rfl, hn⟩
  simp [eraseNames, hnone]

theorem eraseNames_braceFree (ha : BraceFree a) (s : List Char) :
    eraseNames 0 (a ++ s) = a ++ eraseNames 0 s := by
  induction a with
  | nil => rfl
  | cons c a ih =>
    have hc : c ≠ '\x7b' := by
      rintro rfl
      exact absurd (ha _ List.mem_cons_self) (by decide)
    rw [List.cons_append, eraseNames_char hc, ih fun d hd => ha d (List.mem_cons_of_mem _ hd),
      List.cons_append]

theorem exists_eraseNames_cons (c : Char) (s : List Char) :
    ∃ rest, eraseNames 0 (c :: s) = c :: rest := by
  by_cases hc : c = '\x7b'
  · subst hc
    by_cases hs : Closes s
    · obtain ⟨a, s, rfl, ha⟩ := hs
      exact ⟨_, eraseNames_group ha s⟩
    · exact ⟨_, eraseNames_open hs⟩
  · exact ⟨_, eraseNames_char hc s⟩

/-- A template is empty, or it starts with a character outside of braces, with a brace that
is not closed, or with a pair around a name. -/
theorem template_induction {P : List Char → Prop} (nil : P [])
    (char : ∀ c s, c ≠ '\x7b' → P s → P (c :: s)) (bare : ∀ s, ¬Closes s → P s → P ('\x7b' :: s))
    (group : ∀ a s, BraceFree a → P s → P ('\x7b' :: (a ++ '\x7d' :: s)))
    (s : List Char) : P s := by
  induction hn : s.length using Nat.strong_induction_on generalizing s with
  | _ n ih =>
    subst hn
    cases s with
    | nil => exact nil
    | cons c s =>
      by_cases hc : c = '\x7b'
      · subst hc
        by_cases hs : Closes s
        · obtain ⟨a, s, rfl, ha⟩ := hs
          refine group a s ha (ih _ ?_ s rfl)
          simp only [List.length_cons, List.length_append]
          omega
        · exact bare s hs (ih _ (by simp) s rfl)
      · exact char c s hc (ih _ (by simp) s rfl)

/-- Erasing is a renaming. -/
theorem renamed_eraseNames (s : List Char) : Renamed s (eraseNames 0 s) := by
  induction s using template_induction with
  | nil => exact .nil
  | char c s hc ih =>
    rw [eraseNames_char hc]
    exact .char c ih
  | bare s hs ih =>
    rw [eraseNames_open hs]
    exact .char _ ih
  | group a s ha ih =>
    rw [eraseNames_group ha]
    exact .group (b := []) ha (by simp [BraceFree]) ih

theorem Renamed.symm (h : Renamed s t) : Renamed t s := by
  induction h with
  | nil => exact .nil
  | char c _ ih => exact .char c ih
  | group old new _ ih => exact .group new old ih

theorem Renamed.of_cons {c : Char} (h : Renamed (c :: s) t) (hc : c ≠ '\x7b') :
    ∃ t', t = c :: t' ∧ Renamed s t' := by
  cases h with
  | char _ rest => exact ⟨_, rfl, rest⟩
  | group => exact absurd rfl hc

/-- A name in braces that is not renamed itself is still there. -/
theorem Renamed.of_name (h : Renamed (a ++ '\x7d' :: s) t) (ha : BraceFree a) :
    ∃ t', t = a ++ '\x7d' :: t' ∧ Renamed s t' := by
  induction a generalizing t with
  | nil => exact h.of_cons (by decide)
  | cons c a ih =>
    have hc : c ≠ '\x7b' := by
      rintro rfl
      exact absurd (ha _ List.mem_cons_self) (by decide)
    obtain ⟨t, rfl, hrest⟩ := h.of_cons hc
    obtain ⟨t', rfl, hs⟩ := ih hrest fun d hd => ha d (List.mem_cons_of_mem _ hd)
    exact ⟨t', rfl, hs⟩

theorem Renamed.closes (h : Renamed s t) (hs : Closes s) : Closes t := by
  obtain ⟨a, s, rfl, ha⟩ := hs
  obtain ⟨t', rfl, -⟩ := h.of_name ha
  exact ⟨a, t', rfl, ha⟩

theorem Renamed.eraseNames_eq (h : Renamed s t) : eraseNames 0 s = eraseNames 0 t := by
  induction h with
  | nil => rfl
  | @char c s t rest ih =>
    by_cases hc : c = '\x7b'
    · subst hc
      by_cases hs : Closes s
      · obtain ⟨a, s, rfl, ha⟩ := hs
        obtain ⟨t, rfl, -⟩ := rest.of_name ha
        have hbrace : ∀ u : List Char, eraseNames 0 ('\x7d' :: u) = '\x7d' :: eraseNames 0 u :=
          eraseNames_char (by decide)
        rw [eraseNames_braceFree ha, eraseNames_braceFree ha, hbrace, hbrace] at ih
        have htail := (List.cons.inj (List.append_cancel_left ih)).2
        rw [eraseNames_group ha, eraseNames_group ha, htail]
      · rw [eraseNames_open hs, eraseNames_open fun ht => hs (rest.symm.closes ht), ih]
    · rw [eraseNames_char hc, eraseNames_char hc, ih]
  | group old new _ ih => rw [eraseNames_group old, eraseNames_group new, ih]

theorem exists_cons_of_eraseNames {c : Char} (h : eraseNames 0 s = c :: t) :
    ∃ rest, s = c :: rest := by
  cases s with
  | nil => cases h
  | cons d s =>
    obtain ⟨rest, hrest⟩ := exists_eraseNames_cons d s
    exact ⟨s, by rw [(List.cons.inj (hrest.symm.trans h)).1]⟩

/-- The closing brace that is left of a pair shows that the pair was closed. -/
theorem closes_of_eraseNames (h : eraseNames 0 s = '\x7d' :: t) : Closes s := by
  obtain ⟨rest, rfl⟩ := exists_cons_of_eraseNames h
  exact ⟨[], rest, rfl, by simp [BraceFree]⟩

theorem renamed_of_eraseNames_eq (h : eraseNames 0 s = eraseNames 0 t) : Renamed s t := by
  induction s using template_induction generalizing t with
  | nil =>
    cases t with
    | nil => exact .nil
    | cons d t =>
      obtain ⟨rest, hrest⟩ := exists_eraseNames_cons d t
      cases h.trans hrest
  | char c s hc ih =>
    rw [eraseNames_char hc] at h
    obtain ⟨t, rfl⟩ := exists_cons_of_eraseNames h.symm
    rw [eraseNames_char hc] at h
    exact .char c (ih (List.cons.inj h).2)
  | bare s hs ih =>
    rw [eraseNames_open hs] at h
    obtain ⟨t, rfl⟩ := exists_cons_of_eraseNames h.symm
    by_cases ht : Closes t
    · obtain ⟨b, t, rfl, hb⟩ := ht
      rw [eraseNames_group hb] at h
      exact absurd (closes_of_eraseNames (List.cons.inj h).2) hs
    · rw [eraseNames_open ht] at h
      exact .char _ (ih (List.cons.inj h).2)
  | group a s ha ih =>
    rw [eraseNames_group ha] at h
    obtain ⟨t, rfl⟩ := exists_cons_of_eraseNames h.symm
    by_cases ht : Closes t
    · obtain ⟨b, t, rfl, hb⟩ := ht
      rw [eraseNames_group hb] at h
      exact .group ha hb (ih (by simpa using h))
    · rw [eraseNames_open ht] at h
      exact absurd (closes_of_eraseNames (List.cons.inj h).2.symm) ht

/-- Templates are renamed forms of each other when the same is left of them without names. -/
theorem renamed_iff : Renamed s t ↔ eraseNames 0 s = eraseNames 0 t :=
  ⟨Renamed.eraseNames_eq, renamed_of_eraseNames_eq⟩

theorem eraseNames_eraseNames (s : List Char) :
    eraseNames 0 (eraseNames 0 s) = eraseNames 0 s :=
  (renamed_eraseNames s).eraseNames_eq.symm

theorem Renamed.getLast?_eq (h : Renamed s t) : s.getLast? = t.getLast? := by
  induction h with
  | nil => rfl
  | char c _ ih => rw [List.getLast?_cons, List.getLast?_cons, ih]
  | group _ _ _ ih => simp [List.getLast?_cons, List.getLast?_append, ih]

/-- Names are erased from what stands before the slashes at the end. -/
theorem eraseNames_dropSlashes (s : List Char) :
    eraseNames 0 (dropSlashes s) = dropSlashes (eraseNames 0 s) := by
  obtain ⟨n, hs⟩ := exists_slashes s
  have hlast : dropSlashes (eraseNames 0 (dropSlashes s)) = eraseNames 0 (dropSlashes s) := by
    refine List.rdropWhile_eq_self_iff.mpr fun hne hslash => ?_
    have hold := (renamed_eraseNames (dropSlashes s)).getLast?_eq
    rw [List.getLast?_eq_some_getLast hne] at hold
    have hne' : dropSlashes s ≠ [] := by
      intro hnil
      simp [hnil] at hold
    rw [List.getLast?_eq_some_getLast hne', Option.some.injEq] at hold
    exact List.rdropWhile_last_not (· == '/') s hne' (hold ▸ hslash)
  calc eraseNames 0 (dropSlashes s)
      = dropSlashes (eraseNames 0 (dropSlashes s) ++ slashes n) := by
        rw [dropSlashes_append_slashes, hlast]
    _ = dropSlashes (eraseNames 0 s) := by
        rw [← eraseNames_append_slashes _ _ (Nat.zero_le _), ← hs]

theorem dropSlashes_shapeChars (s : List Char) :
    dropSlashes (shapeChars s) = dropSlashes (eraseNames 0 s) := by
  have htwice : dropSlashes (dropSlashes (eraseNames 0 s)) = dropSlashes (eraseNames 0 s) :=
    List.rdropWhile_idempotent _ _
  unfold shapeChars
  split
  · next h => rw [h]; rfl
  · exact htwice

theorem shapeChars_eq_iff :
    shapeChars s = shapeChars t ↔ dropSlashes (eraseNames 0 s) = dropSlashes (eraseNames 0 t) := by
  constructor
  · intro h
    rw [← dropSlashes_shapeChars, ← dropSlashes_shapeChars, h]
  · intro h
    rw [shapeChars, shapeChars, h]

/-- Templates overlap exactly when they have one shape. -/
theorem shape_eq_iff {s t : String} : shape s = shape t ↔ Overlap s t := by
  rw [shape, shape, String.ofList_inj, shapeChars_eq_iff, ← eraseNames_dropSlashes,
    ← eraseNames_dropSlashes, Overlap, renamed_iff]

theorem shapeChars_shapeChars (s : List Char) : shapeChars (shapeChars s) = shapeChars s := by
  rw [shapeChars_eq_iff, ← eraseNames_dropSlashes, dropSlashes_shapeChars,
    ← eraseNames_dropSlashes, eraseNames_eraseNames]

theorem Renamed.shapeChars_eq (h : Renamed s t) : shapeChars s = shapeChars t := by
  rw [shapeChars, shapeChars, h.eraseNames_eq]

end ApiContract.Path
