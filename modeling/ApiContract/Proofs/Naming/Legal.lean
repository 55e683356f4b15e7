import ApiContract.Naming.Identifier
import ApiContract.Proofs.Naming.Fresh
import ApiContract.Proofs.Text.Cut
import ApiContract.Proofs.Text.Digits

/-! # Identifiers are legal

A name falls into words of small letters and digits, and whatever it was, the identifier
made of them is a word of the generated language and none of its reserved ones. It stays so
when a type name or a number is put behind it, since reserved words have small letters only.
-/
namespace ApiContract.Naming

/-- A character that may stand in an identifier. -/
def isPart (c : Char) : Bool := c.isAlphanum || c == '_'

/-- A word of letters, digits and underscores that a digit does not start. -/
structure IsWord (w : Word) : Prop where
  start : ∃ c rest, w = c :: rest ∧ (c.isAlpha = true ∨ c = '_')
  parts : ∀ c ∈ w, isPart c = true
  named : w ≠ ['_']

/-- What can name nothing in generated source: keywords, literals and the underscore alone. -/
def keywords : List String := [
  "_", "abstract", "assert", "boolean", "break", "byte", "case", "catch", "char", "class", "const",
  "continue", "default", "do", "double", "else", "enum", "extends", "false", "final", "finally",
  "float", "for", "goto", "if", "implements", "import", "instanceof", "int", "interface", "long",
  "native", "new", "null", "package", "private", "protected", "public", "return", "short", "static",
  "strictfp", "super", "switch", "synchronized", "this", "throw", "throws", "transient", "true",
  "try", "void", "volatile", "while"]

/-- A word that may name a parameter in generated source. -/
structure IsIdentifier (w : Word) : Prop extends IsWord w where
  free : ∀ k ∈ keywords, k.toList ≠ w

section Case

variable {c : Char}

theorem isUpper_iff : c.isUpper = true ↔ 'A'.val ≤ c.val ∧ c.val ≤ 'Z'.val := decide_eq_true_iff

theorem isLower_iff : c.isLower = true ↔ 'a'.val ≤ c.val ∧ c.val ≤ 'z'.val :=
  Bool.and_eq_true_iff.trans (and_congr decide_eq_true_iff decide_eq_true_iff)

theorem isAlpha_iff : c.isAlpha = true ↔ c.isUpper = true ∨ c.isLower = true := Bool.or_eq_true_iff

theorem isAlphanum_iff :
    c.isAlphanum = true ↔ c.isUpper = true ∨ c.isLower = true ∨ c.isDigit = true := by
  rw [Char.isAlphanum, Bool.or_eq_true, isAlpha_iff, or_assoc]

theorem not_isLower_of_isUpper (h : c.isUpper = true) : ¬c.isLower = true := by
  rw [isUpper_iff] at h
  rw [isLower_iff]
  grind [UInt32.le_iff_toNat_le]

theorem not_isUpper_of_isLower (h : c.isLower = true) : ¬c.isUpper = true :=
  fun hupper => not_isLower_of_isUpper hupper h

theorem toLower_eq_self (h : ¬c.isUpper = true) : c.toLower = c := dif_neg (mt isUpper_iff.mpr h)

theorem toUpper_eq_self (h : ¬c.isLower = true) : c.toUpper = c := dif_neg (mt isLower_iff.mpr h)

theorem val_toLower (h : c.isUpper = true) : c.toLower.val = c.val + ('a'.val - 'A'.val) :=
  congrArg Char.val (dif_pos (isUpper_iff.mp h))

theorem val_toUpper (h : c.isLower = true) : c.toUpper.val = c.val + ('A'.val - 'a'.val) := by
  delta Char.toUpper
  rw [dif_pos (isLower_iff.mp h)]

theorem isLower_toLower_of_isUpper (h : c.isUpper = true) : c.toLower.isLower = true := by
  rw [isLower_iff, val_toLower h]
  rw [isUpper_iff] at h
  grind [UInt32.toNat_add, UInt32.le_iff_toNat_le]

theorem isUpper_toUpper_of_isLower (h : c.isLower = true) : c.toUpper.isUpper = true := by
  rw [isUpper_iff, val_toUpper h]
  rw [isLower_iff] at h
  grind [UInt32.toNat_add, UInt32.le_iff_toNat_le]

theorem isUpper_toLower (c : Char) : c.toLower.isUpper = false := by
  rw [Bool.eq_false_iff]
  by_cases h : c.isUpper = true
  · exact not_isUpper_of_isLower (isLower_toLower_of_isUpper h)
  · rwa [toLower_eq_self h]

@[simp] theorem isLower_toUpper (c : Char) : c.toUpper.isLower = false := by
  rw [Bool.eq_false_iff]
  by_cases h : c.isLower = true
  · exact not_isLower_of_isUpper (isUpper_toUpper_of_isLower h)
  · rwa [toUpper_eq_self h]

@[simp] theorem toUpper_toLower (c : Char) : c.toLower.toUpper = c.toUpper := by
  by_cases h : c.isUpper = true
  · rw [toUpper_eq_self (not_isLower_of_isUpper h)]
    apply Char.ext
    rw [val_toUpper (isLower_toLower_of_isUpper h), val_toLower h]
    grind
  · rw [toLower_eq_self h]

theorem toLower_toUpper (c : Char) : c.toUpper.toLower = c.toLower := by
  by_cases h : c.isLower = true
  · rw [toLower_eq_self (not_isUpper_of_isLower h)]
    apply Char.ext
    rw [val_toLower (isUpper_toUpper_of_isLower h), val_toUpper h]
    grind
  · rw [toUpper_eq_self h]

@[simp] theorem isAlpha_toUpper (c : Char) : c.toUpper.isAlpha = c.isAlpha := by
  by_cases h : c.isLower = true
  · rw [isAlpha_iff.mpr (.inr h), isAlpha_iff.mpr (.inl (isUpper_toUpper_of_isLower h))]
  · rw [toUpper_eq_self h]

@[simp] theorem isUpper_toUpper (c : Char) : c.toUpper.isUpper = c.isAlpha := by
  rw [← isAlpha_toUpper, Bool.eq_iff_iff, isAlpha_iff, isLower_toUpper]
  simp

theorem isAlphanum_toLower (h : c.isAlphanum = true) : c.toLower.isAlphanum = true := by
  by_cases hu : c.isUpper = true
  · simp [Char.isAlphanum, isAlpha_iff.mpr (.inr (isLower_toLower_of_isUpper hu))]
  · rwa [toLower_eq_self hu]

theorem isAlphanum_toUpper (h : c.isAlphanum = true) : c.toUpper.isAlphanum = true := by
  by_cases hl : c.isLower = true
  · simp [Char.isAlphanum, isAlpha_iff.mpr (.inl (isUpper_toUpper_of_isLower hl))]
  · rwa [toUpper_eq_self hl]

end Case

theorem isLower_of_isDigit {c : Char} (h : c.isDigit = true) : c.isLower = false := by
  have hd : c.toNat ≤ 57 := Nat.le_of_lt_succ (Text.toNat_of_isDigit h).2
  refine Bool.eq_false_iff.mpr fun hl => ?_
  have ha := UInt32.le_iff_toNat_le.mp (isLower_iff.mp hl).1
  exact absurd (Nat.le_trans ha hd) (by decide)

theorem isAlphanum_of_splitWords {name : List Char} {w : Word} (hw : w ∈ splitWords name) :
    w ≠ [] ∧ ∀ c ∈ w, c.isAlphanum = true := by
  obtain ⟨run, hrun, rfl⟩ := List.mem_map.mp hw
  obtain ⟨hne, hall⟩ := Text.of_mem_runs hrun
  refine ⟨by simpa using hne, ?_⟩
  intro c hc
  obtain ⟨d, hd, rfl⟩ := List.mem_map.mp hc
  exact isAlphanum_toLower (hall d hd)

theorem isAlphanum_capitalize {w : Word} (hw : ∀ c ∈ w, c.isAlphanum = true) :
    ∀ c ∈ capitalize w, c.isAlphanum = true := by
  cases w with
  | nil => simp [capitalize]
  | cons c rest =>
    intro d hd
    rcases List.mem_cons.mp hd with rfl | hd
    · exact isAlphanum_toUpper (hw c List.mem_cons_self)
    · exact hw d (List.mem_cons_of_mem _ hd)

theorem isAlphanum_camel {words : List Word} (h : ∀ w ∈ words, ∀ c ∈ w, c.isAlphanum = true) :
    ∀ c ∈ camel words, c.isAlphanum = true := by
  cases words with
  | nil => simp [camel]
  | cons first others =>
    intro c hc
    rcases List.mem_append.mp hc with hc | hc
    · exact h first List.mem_cons_self c hc
    · obtain ⟨w, hw, hc⟩ := List.mem_flatMap.mp hc
      exact isAlphanum_capitalize (h w (List.mem_cons_of_mem _ hw)) c hc

theorem isLower_of_isReserved {w : Word} (h : isReserved w = true) : ∀ c ∈ w, c.isLower = true := by
  have hall : ∀ r ∈ reservedWords, r.toList.all Char.isLower = true := by decide +kernel
  obtain ⟨r, hr, hw⟩ := List.any_eq_true.mp h
  have hlower := hall r hr
  rw [beq_iff_eq.mp hw] at hlower
  exact List.all_eq_true.mp hlower

theorem not_isReserved {w : Word} {c : Char} (hc : c ∈ w) (hl : c.isLower = false) :
    isReserved w = false := by
  by_contra h
  have hlower := isLower_of_isReserved (Bool.not_eq_false _ ▸ h) c hc
  rw [hl] at hlower
  cases hlower

/-- The reserved words are all keywords but the underscore, which is no word. -/
theorem IsWord.identifier {w : Word} (h : IsWord w) (hr : isReserved w = false) :
    IsIdentifier w := by
  have hall : ∀ k ∈ keywords, k = "_" ∨ k ∈ reservedWords := by decide +kernel
  refine { h with free := ?_ }
  rintro k hk rfl
  rcases hall k hk with rfl | hreserved
  · exact h.named rfl
  · have hyes : isReserved k.toList = true :=
      List.any_eq_true.mpr ⟨k, hreserved, beq_self_eq_true _⟩
    rw [hr] at hyes
    cases hyes

theorem IsWord.append {w tail : Word} (h : IsWord w) (ht : ∀ c ∈ tail, isPart c = true) :
    IsWord (w ++ tail) := by
  obtain ⟨c, rest, rfl, hc⟩ := h.start
  refine ⟨⟨c, rest ++ tail, rfl, hc⟩, ?_, ?_⟩
  · exact List.forall_mem_append.mpr ⟨h.parts, ht⟩
  · intro he
    obtain ⟨rfl, hempty⟩ := List.cons.inj he
    exact h.named (by rw [(List.append_eq_nil_iff.mp hempty).1])

/-- What holds a character other than a small letter is not reserved. -/
theorem IsWord.identifier_append {w tail : Word} (h : IsWord w) (ht : ∀ c ∈ tail, isPart c = true)
    {c : Char} (hc : c ∈ tail) (hl : c.isLower = false) : IsIdentifier (w ++ tail) :=
  (h.append ht).identifier (not_isReserved (List.mem_append_right _ hc) hl)

theorem isPart_of_isAlphanum {c : Char} (h : c.isAlphanum = true) : isPart c = true := by
  simp [isPart, h]

/-- A letter or a digit starts a word by the guard, whatever parts of words follow. -/
theorem isWord_guardDigit {c : Char} {rest : Word} (hc : c.isAlphanum = true)
    (hrest : ∀ d ∈ rest, isPart d = true) : IsWord (guardDigit (c :: rest)) := by
  have hparts : ∀ d ∈ c :: rest, isPart d = true :=
    List.forall_mem_cons.mpr ⟨isPart_of_isAlphanum hc, hrest⟩
  unfold guardDigit
  dsimp only
  split
  · exact ⟨⟨'_', c :: rest, rfl, Or.inr rfl⟩, List.forall_mem_cons.mpr ⟨rfl, hparts⟩, by simp⟩
  · next hdigit =>
    have halpha : c.isAlpha = true := by
      rw [Char.isAlphanum, Bool.or_eq_true] at hc
      exact hc.resolve_right fun h => hdigit (Text.isDigitLike_of_isDigit h)
    refine ⟨⟨c, rest, rfl, Or.inl halpha⟩, hparts, ?_⟩
    intro he
    rw [(List.cons.inj he).1] at halpha
    cases halpha

theorem IsWord.identifier_guardReserved {w : Word} (h : IsWord w) :
    IsIdentifier (guardReserved w) := by
  unfold guardReserved
  split
  · exact h.identifier_append (c := '_') (by simp [isPart]) (by simp) rfl
  · next hr => exact h.identifier (Bool.not_eq_true _ ▸ hr)

theorem legal_cons (c : Char) (rest : Word) :
    legal (c :: rest) = guardReserved (guardDigit (c :: rest)) := by
  simp [legal]

theorem isIdentifier_legal_cons {c : Char} {rest : Word} (hc : c.isAlphanum = true)
    (hrest : ∀ d ∈ rest, isPart d = true) : IsIdentifier (legal (c :: rest)) := by
  rw [legal_cons]
  exact (isWord_guardDigit hc hrest).identifier_guardReserved

/-- Letters and digits become an identifier by the guard. -/
theorem isIdentifier_legal {w : Word} (hw : ∀ c ∈ w, c.isAlphanum = true) :
    IsIdentifier (legal w) := by
  cases w with
  | nil =>
    exact
      { start := ⟨'v', "alue".toList, rfl, Or.inl rfl⟩
        parts := by simp [legal, isPart]
        named := by simp [legal]
        free := by decide +kernel }
  | cons c rest =>
    obtain ⟨hc, hrest⟩ := List.forall_mem_cons.mp hw
    exact isIdentifier_legal_cons hc fun d hd => isPart_of_isAlphanum (hrest d hd)

/-- The guard leaves no reserved word, neither of those that are keywords nor of the others. -/
theorem not_isReserved_legal (w : Word) : isReserved (legal w) = false := by
  cases w with
  | nil => decide +kernel
  | cons c rest =>
    rw [legal_cons, guardReserved]
    split
    · exact not_isReserved (c := '_') (by simp) rfl
    · next h => exact Bool.eq_false_iff.mpr h

/-- Every name has a legal identifier. -/
theorem isIdentifier_identifierWord (name : Word) : IsIdentifier (identifierWord name) :=
  isIdentifier_legal (isAlphanum_camel fun _ hw => (isAlphanum_of_splitWords hw).2)

theorem fresh_eq (taken : List String) (base joint : String) :
    fresh taken base joint = base ∨ ∃ n, fresh taken base joint = numbered base joint n := by
  unfold fresh
  split
  · cases hf : ((List.range (taken.length + 1)).map fun i => numbered base joint (i + 2)).find?
        fun candidate => candidate ∉ taken with
    | none => exact Or.inl rfl
    | some name =>
      obtain ⟨i, -, hi⟩ := List.mem_map.mp (List.mem_of_find?_eq_some hf)
      exact Or.inr ⟨i + 2, hi.symm⟩
  · exact Or.inl rfl

theorem isDigit_toString (n : ℕ) : ∀ c ∈ (toString n).toList, c.isDigit = true := by
  intro c hc
  rw [Nat.toString_eq_ofList_toDigits, String.toList_ofList] at hc
  exact Nat.isDigit_of_mem_toDigits (by decide) (by decide) hc

theorem isPart_toString (n : ℕ) : ∀ c ∈ (toString n).toList, isPart c = true :=
  fun c hc => isPart_of_isAlphanum (by simp [Char.isAlphanum, isDigit_toString n c hc])

/-- A number behind a name makes it another than any reserved word. -/
theorem not_isReserved_numbered (base joint : String) (n : ℕ) :
    isReserved (numbered base joint n).toList = false := by
  have hne : (toString n).toList ≠ [] := by
    rw [Nat.toString_eq_ofList_toDigits, String.toList_ofList]
    exact Nat.toDigits_ne_nil
  obtain ⟨c, hc⟩ := List.exists_mem_of_ne_nil _ hne
  refine not_isReserved (c := c) ?_ (isLower_of_isDigit (isDigit_toString n c hc))
  rw [numbered, String.toList_append]
  exact List.mem_append_right _ hc

theorem not_isReserved_fresh {base : String} (h : isReserved base.toList = false)
    (taken : List String) (joint : String) :
    isReserved (fresh taken base joint).toList = false := by
  rcases fresh_eq taken base joint with hbase | ⟨n, hnumbered⟩
  · rwa [hbase]
  · rw [hnumbered]
    exact not_isReserved_numbered base joint n

section Joint

variable {base joint : String} (hjoint : ∀ c ∈ joint.toList, isPart c = true)
include hjoint

/-- A number behind a word leaves it one. -/
theorem IsWord.numbered (h : IsWord base.toList) (n : ℕ) :
    IsWord (numbered base joint n).toList := by
  simp only [Naming.numbered, String.toList_append, List.append_assoc]
  exact h.append (List.forall_mem_append.mpr ⟨hjoint, isPart_toString n⟩)

/-- A name that is given out for a word is a word. -/
theorem IsWord.freshJoined (h : IsWord base.toList) (taken : List String) :
    IsWord (fresh taken base joint).toList := by
  rcases fresh_eq taken base joint with hbase | ⟨n, hnumbered⟩
  · rwa [hbase]
  · rw [hnumbered]
    exact h.numbered hjoint n

theorem IsIdentifier.freshJoined (h : IsIdentifier base.toList) (taken : List String) :
    IsIdentifier (fresh taken base joint).toList := by
  rcases fresh_eq taken base joint with hbase | ⟨n, hnumbered⟩
  · rwa [hbase]
  · rw [hnumbered]
    exact (h.toIsWord.numbered hjoint n).identifier (not_isReserved_numbered base joint n)

end Joint

theorem IsIdentifier.fresh {base : String} (h : IsIdentifier base.toList) (taken : List String) :
    IsIdentifier (fresh taken base "").toList :=
  h.freshJoined (by simp) taken

/-- Identifiers that can stand in one scope. -/
structure LegalNames (names : List String) : Prop where
  apart : names.Nodup
  legal : ∀ n ∈ names, IsIdentifier n.toList ∧ isReserved n.toList = false

theorem LegalNames.nil : LegalNames [] := ⟨List.nodup_nil, by simp⟩

theorem LegalNames.concat_fresh {names : List String} (h : LegalNames names) {base joint : String}
    (hbase : IsIdentifier base.toList) (hfree : isReserved base.toList = false)
    (hjoint : ∀ c ∈ joint.toList, isPart c = true) :
    LegalNames (names ++ [Naming.fresh names base joint]) where
  apart := h.apart.append (List.nodup_singleton _)
    (List.disjoint_singleton.mpr (fresh_notMem _ _ _))
  legal := List.forall_mem_append.mpr ⟨h.legal, List.forall_mem_singleton.mpr
    ⟨hbase.freshJoined hjoint _, not_isReserved_fresh hfree _ _⟩⟩

theorem isWord_typeName (name : String) : IsWord (typeName name).toList := by
  rw [typeName, String.toList_ofList]
  unfold typeWord
  split
  · next hpascal =>
    cases hname : name.toList with
    | nil => simp [hname, isPascal] at hpascal
    | cons c rest =>
      simp only [hname, isPascal, Bool.and_eq_true, List.all_eq_true] at hpascal
      obtain ⟨hupper, hrest⟩ := hpascal
      have halpha : c.isAlpha = true := isAlpha_iff.mpr (.inl hupper)
      have hparts : ∀ d ∈ c :: rest, d.isAlphanum = true :=
        List.forall_mem_cons.mpr ⟨by simp [Char.isAlphanum, halpha], hrest⟩
      refine ⟨⟨c, rest, rfl, Or.inl halpha⟩, fun d hd => isPart_of_isAlphanum (hparts d hd), ?_⟩
      intro he
      rw [(List.cons.inj he).1] at halpha
      cases halpha
  · refine (isIdentifier_legal fun c hc => ?_).toIsWord
    obtain ⟨w, hw, hc⟩ := List.mem_flatMap.mp hc
    exact isAlphanum_capitalize (isAlphanum_of_splitWords hw).2 c hc

theorem IsWord.fresh {base : String} (h : IsWord base.toList) (taken : List String) :
    IsWord (fresh taken base "").toList :=
  h.freshJoined (by simp) taken

theorem isWord_resourceName (key : String) : IsWord (resourceName key).toList := by
  rw [resourceName, String.toList_append]
  refine IsWord.append ?_ (by simp [isPart])
  split
  · exact ⟨⟨'R', "oot".toList, rfl, Or.inl rfl⟩, by simp [isPart], by simp⟩
  · exact isWord_typeName key

end ApiContract.Naming
