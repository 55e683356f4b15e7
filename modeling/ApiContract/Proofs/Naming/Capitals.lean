import ApiContract.Proofs.Naming.Legal

/-! # Small letters and capitals

The words of a name are in small letters, so its identifier does not start with a capital, and
no two identifiers become one when their first letters are made capitals. The words of a constant
are joined by underscores, and the constant is an identifier as well.
-/
namespace ApiContract.Naming

/-- The word is empty or does not start with a capital. -/
def StartsSmall (w : Word) : Prop := ∀ c ∈ w.head?, c.isUpper = false

theorem isUpper_of_splitWords {name : List Char} {w : Word} (hw : w ∈ splitWords name) :
    ∀ c ∈ w, c.isUpper = false := by
  obtain ⟨run, -, rfl⟩ := List.mem_map.mp hw
  intro c hc
  obtain ⟨d, -, rfl⟩ := List.mem_map.mp hc
  exact isUpper_toLower d

theorem StartsSmall.append {w : Word} (h : StartsSmall w) (hne : w ≠ []) (tail : Word) :
    StartsSmall (w ++ tail) := by
  cases w with
  | nil => exact absurd rfl hne
  | cons c rest => exact h

theorem startsSmall_camel (name : List Char) : StartsSmall (camel (splitWords name)) := by
  cases hs : splitWords name with
  | nil => simp [camel, StartsSmall]
  | cons first others =>
    have hfirst : first ∈ splitWords name := hs ▸ List.mem_cons_self
    refine StartsSmall.append (fun c hc => ?_) (isAlphanum_of_splitWords hfirst).1 _
    exact isUpper_of_splitWords hfirst c (List.mem_of_head? hc)

theorem StartsSmall.legal {w : Word} (h : StartsSmall w) : StartsSmall (legal w) := by
  cases w with
  | nil => simp [Naming.legal, StartsSmall]
  | cons c rest =>
    have hdigit : ∃ d more, guardDigit (c :: rest) = d :: more ∧ d.isUpper = false := by
      unfold guardDigit
      dsimp only
      split
      · exact ⟨_, _, rfl, rfl⟩
      · exact ⟨_, _, rfl, h c rfl⟩
    obtain ⟨d, more, hguard, hd⟩ := hdigit
    have hsmall : StartsSmall (d :: more) := by
      rintro _ ⟨⟩
      exact hd
    rw [legal_cons, hguard, guardReserved]
    split
    · exact hsmall.append (List.cons_ne_nil _ _) _
    · exact hsmall

theorem startsSmall_identifierWord (name : Word) : StartsSmall (identifierWord name) :=
  (startsSmall_camel name).legal

theorem StartsSmall.fresh {base : String} (h : StartsSmall base.toList) (hne : base.toList ≠ [])
    (taken : List String) (joint : String) : StartsSmall (fresh taken base joint).toList := by
  rcases fresh_eq taken base joint with hbase | ⟨n, hnumbered⟩
  · rwa [hbase]
  · rw [hnumbered, numbered, String.toList_append, String.toList_append, List.append_assoc]
    exact h.append hne _

/-- A letter that is no capital is found again in the capital that is made of it. -/
theorem toUpper_injective {c d : Char} (hc : c.isUpper = false) (hd : d.isUpper = false)
    (h : c.toUpper = d.toUpper) : c = d := by
  have hlower := congrArg Char.toLower h
  rw [toLower_toUpper, toLower_toUpper] at hlower
  rwa [toLower_eq_self (Bool.eq_false_iff.mp hc),
    toLower_eq_self (Bool.eq_false_iff.mp hd)] at hlower

theorem capitalize_injective {v w : Word} (hv : StartsSmall v) (hw : StartsSmall w)
    (h : capitalize v = capitalize w) : v = w := by
  cases v with
  | nil =>
    cases w with
    | nil => rfl
    | cons d more => cases h
  | cons c rest =>
    cases w with
    | nil => cases h
    | cons d more =>
      obtain ⟨hhead, rfl⟩ := List.cons.inj h
      rw [toUpper_injective (hv c rfl) (hw d rfl) hhead]

theorem isPart_joinWith {pieces : List Word} (h : ∀ w ∈ pieces, ∀ c ∈ w, isPart c = true) :
    ∀ c ∈ Text.joinWith ['_'] pieces, isPart c = true := by
  induction pieces using Text.joinWith.induct with
  | case1 => simp [Text.joinWith]
  | case2 piece => simpa [Text.joinWith] using h
  | case3 piece rest hne ih =>
    obtain ⟨hpiece, hrest⟩ := List.forall_mem_cons.mp h
    rw [Text.joinWith]
    · refine List.forall_mem_append.mpr ⟨List.forall_mem_append.mpr ⟨hpiece, ?_⟩, ih hrest⟩
      simp [isPart]
    · exact hne

/-- Words that are joined start as the first of them does. -/
theorem joinWith_starts {words : List Word} (hne : words ≠ [])
    (h : ∀ w ∈ words, w ≠ [] ∧ ∀ c ∈ w, c.isAlphanum = true) :
    ∃ c more, Text.joinWith ['_'] words = c :: more ∧ c.isAlphanum = true ∧
      ∀ d ∈ more, isPart d = true := by
  have hparts := isPart_joinWith fun w hw c hc => isPart_of_isAlphanum ((h w hw).2 c hc)
  obtain ⟨first, others, rfl⟩ := List.exists_cons_of_ne_nil hne
  obtain ⟨hfirst, hall⟩ := h first List.mem_cons_self
  obtain ⟨c, rest, rfl⟩ := List.exists_cons_of_ne_nil hfirst
  have hstart : ∃ more, Text.joinWith ['_'] ((c :: rest) :: others) = c :: more := by
    cases others <;> exact ⟨_, rfl⟩
  obtain ⟨more, hjoined⟩ := hstart
  rw [hjoined] at hparts
  exact ⟨c, more, hjoined, hall c List.mem_cons_self, (List.forall_mem_cons.mp hparts).2⟩

/-- Every text has a legal constant. -/
theorem isIdentifier_constantWord (shown : Word) : IsIdentifier (constantWord shown) := by
  unfold constantWord
  by_cases hne : (splitWords shown).map (·.map Char.toUpper) = []
  · have hempty : ∀ c ∈ "EMPTY".toList, c.isAlphanum = true :=
      List.all_eq_true.mp (by decide)
    rw [hne]
    exact isIdentifier_legal hempty
  · obtain ⟨c, more, hjoined, hc, hmore⟩ := joinWith_starts hne (by
      intro w hw
      obtain ⟨word, hword, rfl⟩ := List.mem_map.mp hw
      obtain ⟨hword, hall⟩ := isAlphanum_of_splitWords hword
      refine ⟨by simpa using hword, fun c hc => ?_⟩
      obtain ⟨d, hd, rfl⟩ := List.mem_map.mp hc
      exact isAlphanum_toUpper (hall d hd))
    rw [hjoined]
    exact isIdentifier_legal_cons hc hmore

end ApiContract.Naming
