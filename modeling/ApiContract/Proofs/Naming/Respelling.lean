import Mathlib.Data.List.Chain
import ApiContract.Proofs.Naming.Legal
import ApiContract.Proofs.Naming.Words

/-! # Type names of type names

The type name of a name is made in one pass, which keeps letters and digits and makes a letter a
capital exactly where a word starts. A capital that does not start a word when the type name is read
again becomes a small letter then. So a type name is its own type name when it is in Pascal case, or
when it is guarded by an underscore before a digit and each of its capitals starts a word. A number
behind it changes nothing of this.
-/
namespace ApiContract.Naming

/-- The letters and digits of a text, in small letters but for the first of each run. -/
def capitals (within : Bool) : List Char → List Char
  | [] => []
  | c :: rest =>
    if c.isAlphanum then (if within then c.toLower else c.toUpper) :: capitals true rest
    else capitals false rest

/-- The letters and digits of a text, in small letters but for those that start a word. -/
def respell (within : Bool) (before : Char) : List Char → List Char
  | [] => []
  | c :: rest =>
    if c.isAlphanum then
      (if within && !startsWord before c rest.head? then c.toLower else c.toUpper) ::
        respell true c rest
    else respell false c rest

theorem isAlphanum_of_isUpper {c : Char} (h : c.isUpper = true) : c.isAlphanum = true :=
  isAlphanum_iff.mpr (.inl h)

/-- Inside of a run the first piece goes on with the letters before it, and has no capital. -/
theorem flatMap_capitalize_runs (text : List Char) :
    ((Text.runs Char.isAlphanum text).map (·.map Char.toLower)).flatMap capitalize =
      capitals false text := by
  suffices hboth : ∀ piece pieces, Text.splitWhere (fun c => !c.isAlphanum) text = piece :: pieces →
      ((((piece :: pieces).filter (· ≠ [])).map (·.map Char.toLower)).flatMap capitalize =
        capitals false text) ∧
      (piece.map Char.toLower ++
        ((pieces.filter (· ≠ [])).map (·.map Char.toLower)).flatMap capitalize =
          capitals true text) by
    obtain ⟨piece, pieces, hsplit⟩ :=
      List.exists_cons_of_ne_nil (Text.splitWhere_ne_nil (fun c => !c.isAlphanum) text)
    rw [Text.runs, hsplit]
    exact (hboth piece pieces hsplit).1
  induction text with
  | nil =>
    rintro _ _ ⟨⟩
    exact ⟨rfl, rfl⟩
  | cons c rest ih =>
    intro piece pieces hsplit
    obtain ⟨next, others, hrest⟩ :=
      List.exists_cons_of_ne_nil (Text.splitWhere_ne_nil (fun c => !c.isAlphanum) rest)
    obtain ⟨hfalse, htrue⟩ := ih next others hrest
    cases hc : c.isAlphanum with
    | true =>
      simp only [Text.splitWhere, hc, hrest, Bool.not_true, Bool.false_eq_true, if_false] at hsplit
      obtain ⟨rfl, rfl⟩ := List.cons.inj hsplit
      simp [capitals, hc, ← htrue, capitalize]
    | false =>
      simp only [Text.splitWhere, hc, hrest, Bool.not_false, if_true] at hsplit
      obtain ⟨rfl, rfl⟩ := List.cons.inj hsplit
      simp [capitals, hc, ← hfalse]

theorem capitals_spaced (within : Bool) (before : Char) (text : List Char) :
    capitals within (spaced before text) = respell within before text := by
  induction text generalizing within before with
  | nil => rfl
  | cons c rest ih =>
    have hblank : (' ').isAlphanum = false := by decide
    rw [spaced]
    cases hstarts : startsWord before c rest.head? with
    | true =>
      have hc : c.isAlphanum = true :=
        isAlphanum_of_isUpper (Bool.and_eq_true_iff.mp hstarts).1
      simp [capitals, respell, hblank, hc, hstarts, ih]
    | false => simp [capitals, respell, hstarts, ih]

/-- The words of a name with their capitals, one after the other. -/
theorem flatMap_capitalize_splitWords (name : List Char) :
    (splitWords name).flatMap capitalize = respell false ' ' name := by
  rw [splitWords, flatMap_capitalize_runs, capitals_spaced]

theorem isAlphanum_respell (within : Bool) (before : Char) (text : List Char) :
    ∀ c ∈ respell within before text, c.isAlphanum = true := by
  induction text generalizing within before with
  | nil => simp [respell]
  | cons c rest ih =>
    unfold respell
    split
    · next hc =>
      refine List.forall_mem_cons.mpr ⟨?_, ih true c⟩
      split
      · exact isAlphanum_toLower hc
      · exact isAlphanum_toUpper hc
    · exact ih false c

theorem length_respell (within : Bool) (before : Char) (text : List Char) :
    (respell within before text).length = text.countP Char.isAlphanum := by
  induction text generalizing within before with
  | nil => rfl
  | cons c rest ih =>
    unfold respell
    split
    · next hc => rw [List.length_cons, ih, List.countP_cons_of_pos hc]
    · next hc => rw [ih, List.countP_cons_of_neg hc]

/-- Each capital of the text starts a word. -/
def capitalsStart (before : Char) : List Char → Bool
  | [] => true
  | c :: rest => (!c.isUpper || startsWord before c rest.head?) && capitalsStart c rest

/-- Letters and digits are kept by the pass when each capital starts a word. -/
theorem respell_eq_self_iff {text : List Char} (h : ∀ c ∈ text, c.isAlphanum = true)
    (before : Char) : respell true before text = text ↔ capitalsStart before text = true := by
  induction text generalizing before with
  | nil => simp [respell, capitalsStart]
  | cons c rest ih =>
    obtain ⟨hc, hrest⟩ := List.forall_mem_cons.mp h
    have hfirst : (if !startsWord before c rest.head? then c.toLower else c.toUpper) = c ↔
        (!c.isUpper || startsWord before c rest.head?) = true := by
      cases hstarts : startsWord before c rest.head? with
      | true =>
        have hupper : c.isUpper = true := (Bool.and_eq_true_iff.mp hstarts).1
        simp [toUpper_eq_self (not_isLower_of_isUpper hupper)]
      | false =>
        cases hupper : c.isUpper with
        | true =>
          have hne : c.toLower ≠ c := by
            intro he
            have hsmall := isUpper_toLower c
            rw [he, hupper] at hsmall
            cases hsmall
          simpa using hne
        | false => simp [toLower_eq_self (Bool.eq_false_iff.mp hupper)]
    rw [respell, if_pos hc, Bool.true_and, List.cons_eq_cons, hfirst, ih hrest, capitalsStart,
      Bool.and_eq_true]

theorem isUpper_of_isDigit {c : Char} (h : c.isDigit = true) : c.isUpper = false := by
  have halpha : c.isAlpha = false := by
    by_contra hne
    have hdigit := isDigit_of_isAlpha (Bool.not_eq_false _ ▸ hne)
    rw [h] at hdigit
    cases hdigit
  exact (Bool.or_eq_false_iff.mp halpha).1

/-- A number behind a text gives no word a start, and takes none away. -/
theorem capitalsStart_append_digits {digits : List Char} (h : ∀ c ∈ digits, c.isDigit = true)
    (before : Char) (text : List Char) :
    capitalsStart before (text ++ digits) = capitalsStart before text := by
  have hdigits : ∀ before, capitalsStart before digits = true := by
    induction digits with
    | nil => exact fun _ => rfl
    | cons d rest ih =>
      obtain ⟨hd, hrest⟩ := List.forall_mem_cons.mp h
      intro before
      simp [capitalsStart, isUpper_of_isDigit hd, ih hrest]
  have hnext : ∀ rest : List Char, (rest ++ digits).head?.any Char.isLower =
      rest.head?.any Char.isLower := by
    rintro (_ | ⟨e, rest⟩)
    · cases digits with
      | nil => rfl
      | cons d rest => exact isLower_of_isDigit (h d List.mem_cons_self)
    · rfl
  induction text generalizing before with
  | nil => exact hdigits before
  | cons c rest ih =>
    rw [List.cons_append, capitalsStart, capitalsStart, ih, startsWord, startsWord, hnext]

/-- A digit behind an underscore, and then letters and digits of which each capital starts a
word. -/
def isGuarded : Word → Bool
  | '_' :: d :: rest => d.isDigit && rest.all Char.isAlphanum && capitalsStart d rest
  | _ => false

/-- A type name that stays as it is when a type name is made of it. -/
def isKept (w : Word) : Bool := isPascal w || isGuarded w

theorem isGuarded_cons_of_ne {c : Char} (h : c ≠ '_') (rest : Word) :
    isGuarded (c :: rest) = false := by
  unfold isGuarded
  split
  · next heq => exact absurd (List.cons.inj heq).1 h
  · rfl

theorem isDigitLike_of_isAlpha {c : Char} (h : c.isAlpha = true) : Text.isDigitLike c = false := by
  have hlow : c.toNat ≤ 122 := by
    rw [isAlpha_iff, isUpper_iff, isLower_iff] at h
    have hbounds : c.val.toNat ≤ 90 ∨ c.val.toNat ≤ 122 :=
      h.imp (fun h => UInt32.le_iff_toNat_le.mp h.2) fun h => UInt32.le_iff_toNat_le.mp h.2
    have hval : c.toNat = c.val.toNat := rfl
    omega
  have hplaceless : Text.placelessRanges.has c = false := by
    have hranges : ∀ r ∈ Text.placelessRanges, 122 < r.1 := by decide +kernel
    refine Bool.eq_false_iff.mpr fun hhas => ?_
    obtain ⟨r, hr, hstart, -⟩ := (Text.Ranges.has_iff _ c).mp hhas
    have habove := hranges r hr
    omega
  rw [Text.isDigitLike, isDecimal_of_isAlpha h, hplaceless, Bool.or_false]

/-- The guard has nothing to do for a name in Pascal case. -/
theorem legal_of_isPascal {w : Word} (h : isPascal w = true) : legal w = w := by
  cases w with
  | nil => cases h
  | cons c rest =>
    obtain ⟨hc, -⟩ := Bool.and_eq_true_iff.mp h
    have hdigit : Text.isDigitLike c = false :=
      isDigitLike_of_isAlpha (isAlpha_iff.mpr (.inl hc))
    have hfree : isReserved (c :: rest) = false :=
      not_isReserved List.mem_cons_self (Bool.eq_false_iff.mpr (not_isLower_of_isUpper hc))
    simp [legal_cons, guardDigit, guardReserved, hdigit, hfree]

theorem legal_of_isDigit {d : Char} (h : d.isDigit = true) (rest : Word) :
    legal (d :: rest) = '_' :: d :: rest := by
  have hfree : isReserved ('_' :: d :: rest) = false := not_isReserved List.mem_cons_self rfl
  simp [legal_cons, guardDigit, guardReserved, Text.isDigitLike_of_isDigit h, hfree]

/-- The shapes of a type name. -/
inductive Spelled (name : Word) : Word → Prop
  | pascal (h : isPascal name = true) : Spelled name name
  | none (h : isPascal name = false) (words : respell false ' ' name = []) :
      Spelled name "value".toList
  | letter {c : Char} {rest : Word} (h : isPascal name = false)
      (words : respell false ' ' name = c :: rest) (pascal : isPascal (c :: rest) = true) :
      Spelled name (c :: rest)
  | digit {d : Char} {rest : Word} (h : isPascal name = false)
      (words : respell false ' ' name = d :: rest) (digit : d.isDigit = true) :
      Spelled name ('_' :: d :: rest)

theorem head?_respell_isLower (before : Char) (text : List Char) :
    ∀ c ∈ (respell false before text).head?, c.isLower = false := by
  induction text generalizing before with
  | nil => simp [respell]
  | cons c rest ih =>
    unfold respell
    split
    · rintro _ ⟨⟩
      simp
    · exact ih c

theorem spelled_typeWord (name : Word) : Spelled name (typeWord name) := by
  unfold typeWord
  rw [flatMap_capitalize_splitWords]
  cases hpascal : isPascal name with
  | true => exact .pascal hpascal
  | false =>
    cases hwords : respell false ' ' name with
    | nil => exact .none hpascal hwords
    | cons c rest =>
      obtain ⟨hc, hrest⟩ := List.forall_mem_cons.mp (hwords ▸ isAlphanum_respell false ' ' name)
      have hsmall : c.isLower = false := head?_respell_isLower ' ' name c (hwords ▸ rfl)
      cases hdigit : c.isDigit with
      | true =>
        rw [legal_of_isDigit hdigit]
        exact .digit hpascal hwords hdigit
      | false =>
        have hupper : c.isUpper = true := by
          simpa [hsmall, hdigit] using isAlphanum_iff.mp hc
        have hfull : isPascal (c :: rest) = true := by
          rw [isPascal, hupper, Bool.true_and]
          exact List.all_eq_true.mpr hrest
        simp only [Bool.false_eq_true, if_false, legal_of_isPascal hfull]
        exact .letter hpascal hwords hfull

theorem respell_guarded {d : Char} (h : d.isDigit = true) (rest : Word) :
    respell false ' ' ('_' :: d :: rest) = d :: respell true d rest := by
  have hd : d.isAlphanum = true := by simp [Char.isAlphanum, h]
  have hsame : d.toUpper = d := toUpper_eq_self (by simp [isLower_of_isDigit h])
  have hmark : ('_').isAlphanum = false := by decide
  simp [respell, hmark, hd, hsame]

/-- The names that are their own type names. -/
theorem typeWord_eq_self_iff {w : Word} : typeWord w = w ↔ isKept w = true := by
  constructor
  · intro hsame
    have hspelled := spelled_typeWord w
    generalize typeWord w = v at hsame hspelled
    cases hspelled with
    | pascal hpascal => simp [isKept, hpascal]
    | none _ hwords =>
      have hvalue : respell false ' ' "value".toList ≠ [] := by decide
      exact absurd (hsame ▸ hwords) hvalue
    | letter _ _ hpascal => simp [isKept, ← hsame, hpascal]
    | @digit d rest _ hwords hdigit =>
      rw [← hsame, respell_guarded hdigit] at hwords
      have hrest := (List.cons.inj hwords).2
      have hall : ∀ c ∈ rest, c.isAlphanum = true := by
        rw [← hrest]
        exact isAlphanum_respell true d rest
      have hstart := (respell_eq_self_iff hall d).mp hrest
      simp only [isKept, ← hsame, isGuarded, hdigit, List.all_eq_true.mpr hall, hstart,
        Bool.and_self, Bool.or_true]
  · intro hkept
    cases hpascal : isPascal w with
    | true => rw [typeWord, if_pos hpascal]
    | false =>
      rw [isKept, hpascal, Bool.false_or] at hkept
      unfold isGuarded at hkept
      split at hkept
      · next d rest =>
        simp only [Bool.and_eq_true, List.all_eq_true] at hkept
        obtain ⟨⟨hdigit, hall⟩, hstart⟩ := hkept
        rw [typeWord, hpascal, flatMap_capitalize_splitWords, respell_guarded hdigit,
          (respell_eq_self_iff hall d).mpr hstart, legal_of_isDigit hdigit]
        rfl
      · cases hkept

/-- A number behind a name does not change whether it is kept. -/
theorem isKept_append_digits {w digits : Word} (hw : w ≠ ['_'])
    (h : ∀ c ∈ digits, c.isDigit = true) : isKept (w ++ digits) = isKept w := by
  have hall : ∀ rest : Word, (rest ++ digits).all Char.isAlphanum = rest.all Char.isAlphanum := by
    have hdigits : digits.all Char.isAlphanum = true :=
      List.all_eq_true.mpr fun c hc => by simp [Char.isAlphanum, h c hc]
    simp [hdigits]
  cases w with
  | nil =>
    cases digits with
    | nil => rfl
    | cons d rest =>
      have hd := h d List.mem_cons_self
      have hne : d ≠ '_' := by
        rintro rfl
        cases hd
      rw [List.nil_append, isKept, isPascal, isUpper_of_isDigit hd, isGuarded_cons_of_ne hne]
      rfl
  | cons c rest =>
    have hpascal : isPascal (c :: (rest ++ digits)) = isPascal (c :: rest) := by
      rw [isPascal, isPascal, hall]
    have hguarded : isGuarded (c :: (rest ++ digits)) = isGuarded (c :: rest) := by
      by_cases hc : c = '_'
      · subst hc
        cases rest with
        | nil => exact absurd rfl hw
        | cons d rest =>
          rw [List.cons_append, isGuarded, isGuarded, hall, capitalsStart_append_digits h]
      · rw [isGuarded_cons_of_ne hc, isGuarded_cons_of_ne hc]
    rw [List.cons_append, isKept, isKept, hpascal, hguarded]

/-- A word of one letter and a word behind it whose first letter no small letter follows: next to
each other, the two letters are capitals of one word. -/
def swallows : Word → Word → Bool
  | [a], b :: rest => a.isLower && b.isLower && !rest.head?.any Char.isLower
  | _, _ => false

/-- A name whose type name is kept: it is in Pascal case, or it has words and the first of them
starts with a letter, or with a digit when no word swallows the one behind it. -/
inductive IsStable (name : Word) : Prop
  | pascal (h : isPascal name = true)
  | letter {c : Char} {tail : Word} {others : List Word}
      (words : splitWords name = (c :: tail) :: others) (letter : c.isLower = true)
  | digit {d : Char} {tail : Word} {others : List Word}
      (words : splitWords name = (d :: tail) :: others) (digit : d.isDigit = true)
      (apart : ((d :: tail) :: others).IsChain fun v w => swallows v w = false)

abbrev SmallWord (w : Word) : Prop := w ≠ [] ∧ ∀ c ∈ w, c.isLower = true ∨ c.isDigit = true

theorem smallWord_of_splitWords {name : List Char} {w : Word} (hw : w ∈ splitWords name) :
    SmallWord w := by
  obtain ⟨hne, hall⟩ := isAlphanum_of_splitWords hw
  refine ⟨hne, fun c hc => ?_⟩
  have hsmall := isUpper_of_splitWords hw c hc
  simpa [hsmall] using isAlphanum_iff.mp (hall c hc)

theorem capitalsStart_append_small {w : Word} (h : ∀ c ∈ w, c.isLower = true ∨ c.isDigit = true)
    (before : Char) (more : List Char) :
    capitalsStart before (w ++ more) = capitalsStart (w.getLastD before) more := by
  induction w generalizing before with
  | nil => rfl
  | cons c rest ih =>
    obtain ⟨hc, hrest⟩ := List.forall_mem_cons.mp h
    have hsmall : c.isUpper = false :=
      hc.elim (fun hl => Bool.eq_false_iff.mpr (not_isUpper_of_isLower hl)) isUpper_of_isDigit
    rw [List.cons_append, capitalsStart, hsmall, ih hrest, List.getLastD_cons]
    rfl

/-- The capital of a word starts it, unless the word before swallows it. -/
theorem starts_capital {a b : Char} {tail more : Word} {next : Option Char}
    (hv : SmallWord (a :: tail)) (hw : SmallWord (b :: more))
    (hnext : next.any Char.isLower = more.head?.any Char.isLower) :
    (!b.toUpper.isUpper || startsWord (tail.getLastD a.toUpper) b.toUpper next) =
      !swallows (a :: tail) (b :: more) := by
  rcases hw.2 b List.mem_cons_self with hb | hb
  · have halpha : b.isAlpha = true := isAlpha_iff.mpr (.inr hb)
    cases tail with
    | nil =>
      rcases hv.2 a List.mem_cons_self with ha | ha
      · have hupper : a.isAlpha = true := isAlpha_iff.mpr (.inr ha)
        have hdigit : a.toUpper.isDigit = false := isDigit_of_isAlpha (by simp [hupper])
        simp [startsWord, swallows, ha, hb, halpha, hupper, hdigit, hnext]
      · have hsame : a.toUpper = a :=
          toUpper_eq_self (by simp [isLower_of_isDigit ha])
        simp [startsWord, swallows, halpha, hsame, ha, isLower_of_isDigit ha]
    | cons t ts =>
      have hlast : ts.getLastD t ∈ a :: t :: ts := List.mem_cons_of_mem _ List.getLastD_mem_cons
      rw [List.getLastD_cons]
      generalize ts.getLastD t = last at hlast
      rcases hv.2 last hlast with hl | hl <;> simp [startsWord, swallows, halpha, hl]
  · have halpha : b.isAlpha = false := by
      rw [Bool.eq_false_iff, ne_eq, isAlpha_iff, isLower_of_isDigit hb, isUpper_of_isDigit hb]
      simp
    cases tail <;> simp [swallows, halpha, isLower_of_isDigit hb]

/-- Each capital of words put together starts a word when no word swallows the one behind it. -/
theorem capitalsStart_flatMap {a : Char} {tail : Word} {words : List Word}
    (hv : SmallWord (a :: tail)) (hwords : ∀ w ∈ words, SmallWord w) :
    capitalsStart (tail.getLastD a.toUpper) (words.flatMap capitalize) = true ↔
      ((a :: tail) :: words).IsChain fun v w => swallows v w = false := by
  induction words generalizing a tail with
  | nil => simp [capitalsStart]
  | cons w rest ih =>
    obtain ⟨hw, hrest⟩ := List.forall_mem_cons.mp hwords
    cases w with
    | nil => exact absurd rfl hw.1
    | cons b more =>
      have hnext : ((more ++ rest.flatMap capitalize).head?).any Char.isLower =
          more.head?.any Char.isLower := by
        cases more with
        | cons c more => rfl
        | nil =>
          cases rest with
          | nil => rfl
          | cons w' rest =>
            cases w' with
            | nil => exact absurd rfl (hrest [] List.mem_cons_self).1
            | cons c more => simp [capitalize]
      have hsmall : ∀ c ∈ more, c.isLower = true ∨ c.isDigit = true := fun c hc =>
        hw.2 c (List.mem_cons_of_mem _ hc)
      rw [List.flatMap_cons, capitalize, List.cons_append, capitalsStart,
        starts_capital hv hw hnext, capitalsStart_append_small hsmall, Bool.and_eq_true,
        ih hw hrest, List.isChain_cons_cons, Bool.not_eq_true']

theorem exists_splitWords {name : Word} {c : Char} {rest : Word}
    (h : respell false ' ' name = c :: rest) :
    ∃ a tail others, splitWords name = (a :: tail) :: others ∧ c = a.toUpper ∧
      rest = tail ++ others.flatMap capitalize := by
  rw [← flatMap_capitalize_splitWords] at h
  cases hwords : splitWords name with
  | nil => simp [hwords] at h
  | cons first others =>
    cases first with
    | nil => exact absurd rfl (smallWord_of_splitWords (hwords ▸ List.mem_cons_self)).1
    | cons a tail =>
      rw [hwords, List.flatMap_cons, capitalize, List.cons_append] at h
      obtain ⟨rfl, rfl⟩ := List.cons.inj h
      exact ⟨a, tail, others, rfl, rfl, rfl⟩

/-- A guarded type name is kept when no word swallows the one behind it. -/
theorem isKept_guarded_iff {a : Char} {tail : Word} {others : List Word}
    (hdigit : a.toUpper.isDigit = true) (hwords : ∀ w ∈ (a :: tail) :: others, SmallWord w)
    (hall : ∀ c ∈ tail ++ others.flatMap capitalize, c.isAlphanum = true) :
    isKept ('_' :: a.toUpper :: (tail ++ others.flatMap capitalize)) = true ↔
      ((a :: tail) :: others).IsChain fun v w => swallows v w = false := by
  obtain ⟨hfirst, hothers⟩ := List.forall_mem_cons.mp hwords
  rw [← capitalsStart_flatMap hfirst hothers, ← capitalsStart_append_small
    fun c hc => hfirst.2 c (List.mem_cons_of_mem _ hc)]
  simp only [isKept, isPascal, isGuarded, hdigit, List.all_eq_true.mpr hall]
  simp

/-- What is told by the words of a name about its type name. -/
theorem isKept_typeWord_iff {name : Word} : isKept (typeWord name) = true ↔ IsStable name := by
  have hspelled := spelled_typeWord name
  generalize typeWord name = v at hspelled
  cases hspelled with
  | pascal hpascal => exact iff_of_true (by simp [isKept, hpascal]) (.pascal hpascal)
  | none hpascal hwords =>
    rw [← flatMap_capitalize_splitWords] at hwords
    refine iff_of_false (by decide) fun hstable => ?_
    cases hstable with
    | pascal h => simp [hpascal] at h
    | letter words => simp [words, capitalize] at hwords
    | digit words => simp [words, capitalize] at hwords
  | letter _ hwords hfull =>
    obtain ⟨a, tail, others, hsplit, rfl, -⟩ := exists_splitWords hwords
    have hsmall : SmallWord (a :: tail) := smallWord_of_splitWords (hsplit ▸ List.mem_cons_self)
    have halpha : a.isAlpha = true := by
      rw [← isUpper_toUpper]
      exact (Bool.and_eq_true_iff.mp hfull).1
    refine iff_of_true (by simp [isKept, hfull]) (.letter hsplit ?_)
    refine (hsmall.2 a List.mem_cons_self).resolve_right fun hdigit => ?_
    rw [isDigit_of_isAlpha halpha] at hdigit
    cases hdigit
  | digit hpascal hwords hdigit =>
    have hall := hwords ▸ isAlphanum_respell false ' ' name
    obtain ⟨a, tail, others, hsplit, rfl, rfl⟩ := exists_splitWords hwords
    have hsmall : ∀ w ∈ (a :: tail) :: others, SmallWord w := fun w hw =>
      smallWord_of_splitWords (hsplit ▸ hw)
    have hfirst := hsmall _ List.mem_cons_self
    have hletter : a.isLower = false := by
      refine Bool.eq_false_iff.mpr fun hl => ?_
      have halpha : a.toUpper.isAlpha = true := by
        rw [isAlpha_toUpper]
        exact isAlpha_iff.mpr (.inr hl)
      rw [isDigit_of_isAlpha halpha] at hdigit
      cases hdigit
    rw [isKept_guarded_iff hdigit hsmall (List.forall_mem_cons.mp hall).2]
    constructor
    · have hstart := (hfirst.2 a List.mem_cons_self).resolve_left (by simp [hletter])
      exact fun apart => .digit hsplit hstart apart
    · intro hstable
      cases hstable with
      | pascal h => simp [hpascal] at h
      | letter words letter =>
        rw [hsplit] at words
        obtain ⟨hsame, -⟩ := List.cons.inj words
        rw [← (List.cons.inj hsame).1, hletter] at letter
        cases letter
      | digit words _ apart => exact hsplit.symm.trans words ▸ apart

/-- A name with a number behind it that was given out for another. -/
theorem exists_digits_fresh (taken : List String) (base : String) :
    ∃ digits, (fresh taken base "").toList = base.toList ++ digits ∧
      ∀ c ∈ digits, c.isDigit = true := by
  rcases fresh_eq taken base "" with hbase | ⟨n, hnumbered⟩
  · exact ⟨[], by simp [hbase], by simp⟩
  · exact ⟨(toString n).toList, by simp [hnumbered, numbered], isDigit_toString n⟩

theorem typeName_eq_self_iff {name : String} :
    typeName name = name ↔ isKept name.toList = true := by
  rw [typeName, ← String.toList_inj, String.toList_ofList, typeWord_eq_self_iff]

/-- Whether a type name is kept is told by the name that it is made of, also when it has got a
number. -/
theorem typeName_fresh_iff (name : String) (taken : List String) :
    typeName (fresh taken (typeName name) "") = fresh taken (typeName name) "" ↔
      IsStable name.toList := by
  obtain ⟨digits, hfresh, hdigits⟩ := exists_digits_fresh taken (typeName name)
  rw [typeName_eq_self_iff, hfresh, isKept_append_digits (isWord_typeName name).named hdigits,
    typeName, String.toList_ofList, isKept_typeWord_iff]

/-- The last character is a letter or a digit. -/
def EndsPlain (w : Word) : Prop := ∃ start c, w = start ++ [c] ∧ c.isAlphanum = true

theorem EndsPlain.append {w : Word} (h : EndsPlain w) (before : Word) :
    EndsPlain (before ++ w) := by
  obtain ⟨start, c, rfl, hc⟩ := h
  exact ⟨before ++ start, c, by simp, hc⟩

theorem endsPlain_of_all {w : Word} (hne : w ≠ []) (h : ∀ c ∈ w, c.isAlphanum = true) :
    EndsPlain w :=
  ⟨w.dropLast, w.getLast hne, (List.dropLast_concat_getLast hne).symm, h _ (List.getLast_mem hne)⟩

theorem endsPlain_typeWord (name : Word) : EndsPlain (typeWord name) := by
  have hspelled := spelled_typeWord name
  generalize typeWord name = v at hspelled
  cases hspelled with
  | pascal hpascal =>
    cases name with
    | nil => cases hpascal
    | cons c rest =>
      obtain ⟨hc, hrest⟩ := Bool.and_eq_true_iff.mp hpascal
      exact endsPlain_of_all (List.cons_ne_nil _ _)
        (List.forall_mem_cons.mpr ⟨isAlphanum_of_isUpper hc, List.all_eq_true.mp hrest⟩)
  | none => exact ⟨"valu".toList, 'e', rfl, rfl⟩
  | letter _ hwords _ =>
    have hall := hwords ▸ isAlphanum_respell false ' ' name
    exact endsPlain_of_all (List.cons_ne_nil _ _) hall
  | digit _ hwords _ =>
    have hall := hwords ▸ isAlphanum_respell false ' ' name
    exact (endsPlain_of_all (List.cons_ne_nil _ _) hall).append ['_']

theorem endsPlain_fresh {base : String} (h : EndsPlain base.toList) (taken : List String) :
    EndsPlain (fresh taken base "").toList := by
  obtain ⟨digits, hfresh, hdigits⟩ := exists_digits_fresh taken base
  rw [hfresh]
  by_cases hne : digits = []
  · rwa [hne, List.append_nil]
  · exact (endsPlain_of_all hne fun c hc => by simp [Char.isAlphanum, hdigits c hc]).append _

/-- A text that starts other letters and digits than its own, as many as it has, is these. -/
theorem eq_of_prefix_append {w letters more : Word} (hletters : ∀ c ∈ letters, c.isAlphanum = true)
    (hcount : letters.length = w.countP Char.isAlphanum) (hends : EndsPlain w)
    (h : w <+: letters ++ more) : w = letters := by
  have hle : letters.length ≤ w.length := hcount ▸ List.countP_le_length
  obtain ⟨last, rfl⟩ := List.prefix_of_prefix_length_le (List.prefix_append letters more) h hle
  rw [List.countP_append, List.countP_eq_length.mpr hletters] at hcount
  have hlast : last.countP Char.isAlphanum = 0 := by omega
  obtain ⟨start, c, hsplit, hc⟩ := hends
  rcases List.eq_nil_or_concat last with rfl | ⟨init, d, rfl⟩
  · rw [List.append_nil]
  · rw [List.concat_eq_append, ← List.append_assoc] at hsplit
    obtain ⟨-, hd⟩ := List.append_inj' hsplit rfl
    obtain rfl : d = c := by simpa using hd
    have hnone := List.countP_eq_zero.mp hlast d (by simp)
    exact absurd hc hnone

/-- A name that starts with its own type name, with anything behind it, is the type name. -/
theorem typeWord_eq_self_of_prefix_append {w more : Word} (hends : EndsPlain w)
    (h : w <+: typeWord w ++ more) : typeWord w = w := by
  have hspelled := spelled_typeWord w
  generalize typeWord w = v at hspelled h
  cases hspelled with
  | pascal => rfl
  | none _ hwords =>
    have hnone := length_respell false ' ' w
    obtain ⟨start, c, rfl, hc⟩ := hends
    rw [hwords, List.countP_append, List.countP_cons_of_pos hc] at hnone
    simp at hnone
  | letter _ hwords _ =>
    have hcount := length_respell false ' ' w
    have hall := isAlphanum_respell false ' ' w
    rw [hwords] at hcount hall
    exact (eq_of_prefix_append hall hcount hends h).symm
  | digit _ hwords _ =>
    have hcount := length_respell false ' ' w
    have hall := isAlphanum_respell false ' ' w
    rw [hwords] at hcount hall
    have hmark : ('_').isAlphanum = false := by decide
    obtain ⟨start, c, rfl, hc⟩ := hends
    cases start with
    | nil =>
      obtain ⟨rfl, -⟩ := List.cons_prefix_cons.mp h
      cases hc
    | cons b start =>
      obtain ⟨rfl, hrest⟩ := List.cons_prefix_cons.mp h
      rw [List.cons_append, List.countP_cons_of_neg (by simp [hmark])] at hcount
      rw [← eq_of_prefix_append hall hcount ⟨start, c, rfl, hc⟩ hrest]
      rfl

end ApiContract.Naming
