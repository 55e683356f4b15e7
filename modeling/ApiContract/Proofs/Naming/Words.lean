import ApiContract.Proofs.Naming.Capitals
import ApiContract.Proofs.Text.Cut
import ApiContract.Text.Substitution

/-! # Words keep the letters of a name

A name falls into words by blanks that are put before some of its capitals. One pass over the name
does what two substitutions from the left do: the first parts the last of several capitals from
those before it when a small letter follows, and the second parts a capital from a small letter or
a digit before it. Blanks are all that is put in, so that the words hold the letters and digits of
the name, each once and in their order.
-/
namespace ApiContract.Naming

/-- Whether a word starts at a character, by the characters on both sides of it. -/
abbrev Starts := Char → Char → Option Char → Bool

/-- The text with a blank before each character at which a word starts. -/
def spacedBy (starts : Starts) (before : Char) : List Char → List Char
  | [] => []
  | c :: rest =>
    if starts before c rest.head? then ' ' :: c :: spacedBy starts c rest
    else c :: spacedBy starts c rest

theorem spaced_eq_spacedBy (before : Char) (text : List Char) :
    spaced before text = spacedBy startsWord before text := by
  induction text generalizing before with
  | nil => rfl
  | cons c rest ih => simp only [spaced, spacedBy, ih]

variable {starts starts' : Starts} {before c : Char} {rest : List Char}

theorem spacedBy_cons_of (h : starts before c rest.head? = true) :
    spacedBy starts before (c :: rest) = ' ' :: c :: spacedBy starts c rest := by
  simp [spacedBy, h]

theorem spacedBy_cons_of_not (h : starts before c rest.head? = false) :
    spacedBy starts before (c :: rest) = c :: spacedBy starts c rest := by
  simp [spacedBy, h]

theorem sublist_spacedBy (starts : Starts) (before : Char) (text : List Char) :
    text.Sublist (spacedBy starts before text) := by
  induction text generalizing before with
  | nil => exact List.Sublist.refl []
  | cons c rest ih =>
    unfold spacedBy
    split
    · exact ((ih c).cons_cons c).cons ' '
    · exact (ih c).cons_cons c

/-- Nothing but blanks is put in. -/
theorem filter_spacedBy {p : Char → Bool} (hp : p ' ' = false) (starts : Starts) (before : Char)
    (text : List Char) : (spacedBy starts before text).filter p = text.filter p := by
  induction text generalizing before with
  | nil => rfl
  | cons c rest ih =>
    unfold spacedBy
    split
    · simp [List.filter_cons, hp, ih]
    · simp [List.filter_cons, ih]

/-- Two rounds of blanks are one, when the second round looks at two characters side by side and
parts nothing from a blank. -/
theorem spacedBy_spacedBy {parts : Char → Char → Bool} (hleft : ∀ c, parts ' ' c = false)
    (hright : ∀ c, parts c ' ' = false) (starts : Starts) (before : Char) (text : List Char) :
    spacedBy (fun b c _ => parts b c) before (spacedBy starts before text) =
      spacedBy (fun b c next => starts b c next || parts b c) before text := by
  induction text generalizing before with
  | nil => rfl
  | cons c rest ih =>
    cases hstarts : starts before c rest.head? with
    | true =>
      have hone : (starts before c rest.head? || parts before c) = true := by simp [hstarts]
      rw [spacedBy_cons_of hstarts, spacedBy_cons_of_not (hright before),
        spacedBy_cons_of_not (hleft c), ih, spacedBy_cons_of hone]
    | false =>
      rw [spacedBy_cons_of_not hstarts]
      cases hparts : parts before c with
      | true =>
        have hone : (starts before c rest.head? || parts before c) = true := by simp [hparts]
        rw [spacedBy_cons_of hparts, ih, spacedBy_cons_of hone]
      | false =>
        have hnone : (starts before c rest.head? || parts before c) = false := by
          simp [hstarts, hparts]
        rw [spacedBy_cons_of_not hparts, ih, spacedBy_cons_of_not hnone]

/-- Where words start behind a character that is in no run does not change the runs. -/
theorem sameRuns_spacedBy {p : Char → Bool} (hblank : p ' ' = false)
    (h : ∀ b c next, p b = true → starts b c next = starts' b c next) (before : Char)
    (text : List Char) :
    Text.runs p (spacedBy starts before text) = Text.runs p (spacedBy starts' before text) ∧
      (p before = true →
        Text.SameRuns p (spacedBy starts before text) (spacedBy starts' before text)) := by
  induction text generalizing before with
  | nil => exact ⟨rfl, fun _ => ⟨rfl, rfl⟩⟩
  | cons c rest ih =>
    obtain ⟨hruns, hfirst⟩ := ih c
    have hsame := Text.sameRuns_cons hruns hfirst
    have hblanks : ∀ text, Text.runs p (' ' :: text) = Text.runs p text :=
      Text.runs_cons_of_not hblank
    refine ⟨?_, fun hbefore => ?_⟩
    · unfold spacedBy
      split
      · split
        · rw [hblanks, hblanks, hsame.runs]
        · rw [hblanks, hsame.runs]
      · split
        · rw [hblanks, hsame.runs]
        · exact hsame.runs
    · unfold spacedBy
      rw [h before c rest.head? hbefore]
      split
      · exact Text.sameRuns_cons hsame.runs fun _ => hsame
      · exact hsame

/-- As many capitals from the start of a text as have a capital and a small letter behind them,
and these two. -/
def hump? : List Char → Option (List Char × List Char)
  | [] => none
  | c :: rest =>
    if c.isUpper then
      match hump? rest with
      | some (capitals, word) => some (c :: capitals, word)
      | none =>
        match rest with
        | d :: e :: _ => if d.isUpper && e.isLower then some ([c], [d, e]) else none
        | _ => none
    else none

def humpRule : Text.Rule := fun _ text =>
  (hump? text).map fun (capitals, word) => (capitals.length + word.length, capitals ++ ' ' :: word)

/-- Several capitals and a small letter, of which the last capital starts a word. -/
structure Hump (text capitals : List Char) (d e : Char) (later : List Char) : Prop where
  text : text = capitals ++ d :: e :: later
  some : capitals ≠ []
  capitals : ∀ c ∈ capitals, c.isUpper = true
  last : d.isUpper = true
  small : e.isLower = true

theorem hump?_eq_some {text capitals word : List Char} (h : hump? text = some (capitals, word)) :
    ∃ d e later, Hump text capitals d e later ∧ word = [d, e] := by
  induction text generalizing capitals with
  | nil => cases h
  | cons c rest ih =>
    unfold hump? at h
    split at h
    · next hc =>
      split at h
      · next capitals' word' hrest =>
        cases h
        obtain ⟨d, e, later, hump, hword⟩ := ih hrest
        exact ⟨d, e, later, ⟨congrArg (c :: ·) hump.text, List.cons_ne_nil _ _,
          List.forall_mem_cons.mpr ⟨hc, hump.capitals⟩, hump.last, hump.small⟩, hword⟩
      · split at h
        · next d e later _ =>
          split at h
          · next hword =>
            cases h
            rw [Bool.and_eq_true] at hword
            exact ⟨d, e, later, ⟨rfl, List.cons_ne_nil _ _, List.forall_mem_singleton.mpr hc,
              hword.1, hword.2⟩, rfl⟩
          · cases h
        · cases h
    · cases h

/-- Two capitals and a small letter are enough. -/
theorem hump?_ne_none {b c e : Char} {later : List Char} (hb : b.isUpper = true)
    (hc : c.isUpper = true) (he : e.isLower = true) : hump? (b :: c :: e :: later) ≠ none := by
  rw [hump?, if_pos hb]
  cases hump? (c :: e :: later) with
  | some found => simp
  | none => simp [hc, he]

def startsHump : Starts := fun before c next =>
  c.isUpper && before.isUpper && next.any Char.isLower

/-- Leaving out what was taken already comes to what stands behind it. -/
theorem exists_substituteFrom_append (rule : Text.Rule) (taken rest : List Char)
    (before : Option Char) :
    ∃ last, Text.substituteFrom rule taken.length before (taken ++ rest) =
      Text.substituteFrom rule 0 last rest := by
  induction taken generalizing before with
  | nil => exact ⟨before, rfl⟩
  | cons c taken ih => exact ih (some c)

/-- No word starts inside several capitals, only at the last of them. -/
theorem spacedBy_hump {capitals later : List Char} {d e : Char} (hne : capitals ≠ [])
    (hcapitals : ∀ c ∈ capitals, c.isUpper = true) (hd : d.isUpper = true)
    (he : e.isLower = true) (before : Char) :
    spacedBy startsHump before (capitals ++ d :: e :: later) =
      capitals ++ ' ' :: d :: e :: spacedBy startsHump e later := by
  have hsmall : ∀ {c : Char}, c.isUpper = true → c.isLower = false := fun h =>
    Bool.eq_false_iff.mpr (not_isLower_of_isUpper h)
  induction capitals generalizing before with
  | nil => exact absurd rfl hne
  | cons c capitals ih =>
    obtain ⟨hc, hrest⟩ := List.forall_mem_cons.mp hcapitals
    have hword : startsHump d e later.head? = false := by
      simp [startsHump, not_isUpper_of_isLower he]
    cases capitals with
    | nil =>
      have hfirst : startsHump before c (d :: e :: later).head? = false := by
        simp [startsHump, hsmall hd]
      have hlast : startsHump c d (e :: later).head? = true := by
        simp [startsHump, hc, hd, he]
      rw [List.singleton_append, spacedBy_cons_of_not hfirst, spacedBy_cons_of hlast,
        spacedBy_cons_of_not hword]
      rfl
    | cons c' capitals =>
      have hfirst : startsHump before c (c' :: capitals ++ d :: e :: later).head? = false := by
        simp [startsHump, hsmall (hrest c' List.mem_cons_self)]
      rw [List.cons_append, spacedBy_cons_of_not hfirst, ih (List.cons_ne_nil _ _) hrest]
      rfl

/-- The first substitution sets a blank before the last of several capitals that a small letter
follows. The induction is on the length of the text. Where the scan stands behind a capital that
it has passed over, no word starts, since it would have been taken with that capital. -/
theorem substituteFrom_humpRule (text : List Char) (before : Char) (seen : Option Char)
    (h : before.isUpper = true → hump? (before :: text) = none) :
    Text.substituteFrom humpRule 0 seen text = spacedBy startsHump before text := by
  induction hn : text.length using Nat.strong_induction_on generalizing text before seen with
  | _ n ih =>
    subst hn
    cases text with
    | nil => rfl
    | cons c rest =>
      rw [Text.substituteFrom]
      cases hfound : hump? (c :: rest) with
      | none =>
        have hnot : startsHump before c rest.head? = false := by
          by_contra hstarts
          simp only [startsHump, Bool.not_eq_false, Bool.and_eq_true, Option.any_eq_true] at hstarts
          obtain ⟨⟨hc, hbefore⟩, e, he, hsmall⟩ := hstarts
          obtain ⟨later, rfl⟩ := List.head?_eq_some_iff.mp he
          exact hump?_ne_none hbefore hc hsmall (h hbefore)
        simp only [humpRule, hfound, Option.map_none]
        rw [spacedBy_cons_of_not hnot]
        exact congrArg (c :: ·) (ih rest.length (by simp) rest c (some c) (fun _ => hfound) rfl)
      | some found =>
        obtain ⟨capitals, word⟩ := found
        obtain ⟨d, e, later, hump, rfl⟩ := hump?_eq_some hfound
        obtain ⟨first, others, rfl⟩ := List.exists_cons_of_ne_nil hump.some
        obtain ⟨rfl, hrest⟩ := List.cons.inj hump.text
        have htaken : rest = (others ++ [d, e]) ++ later := by simp [hrest]
        obtain ⟨last, hskip⟩ := exists_substituteFrom_append humpRule (others ++ [d, e]) later
          (some c)
        have hwidth : (c :: others).length + [d, e].length - 1 = (others ++ [d, e]).length := by
          simp only [List.length_cons, List.length_append, List.length_nil]
          omega
        have hshorter : later.length < (c :: rest).length := by
          simp only [htaken, List.length_cons, List.length_append]
          omega
        have hlater := ih later.length hshorter later e last
          (fun hupper => absurd hupper (not_isUpper_of_isLower hump.small)) rfl
        simp only [humpRule, hfound, Option.map_some]
        rw [hwidth, htaken, hskip, hlater, ← htaken, hump.text,
          spacedBy_hump hump.some hump.capitals hump.last hump.small]
        simp

/-- What a capital is parted from: a small letter, or a digit of any script. -/
def endsWord (c : Char) : Bool := c.isLower || Text.isDecimal c

def edgeRule : Text.Rule := fun _ text =>
  match text with
  | c :: d :: _ => if endsWord c && d.isUpper then some (2, [c, ' ', d]) else none
  | _ => none

def startsEdge (before c : Char) : Bool := endsWord before && c.isUpper

theorem isDecimal_of_isAlpha {c : Char} (h : c.isAlpha = true) : Text.isDecimal c = false := by
  have hrange : 65 ≤ c.toNat ∧ c.toNat ≤ 122 := by
    rw [isAlpha_iff, isUpper_iff, isLower_iff] at h
    simp only [UInt32.le_iff_toNat_le] at h
    have hval : c.toNat = c.val.toNat := rfl
    have hbounds : (65 ≤ c.val.toNat ∧ c.val.toNat ≤ 90) ∨
        (97 ≤ c.val.toNat ∧ c.val.toNat ≤ 122) := h
    omega
  have hzeros : ∀ base ∈ Text.decimalZeros, base + 10 ≤ 65 ∨ 122 < base := by decide +kernel
  rw [Text.isDecimal, Text.decimalValue?, Option.isSome_map, Option.isSome_eq_false_iff,
    Option.isNone_iff_eq_none, List.find?_eq_none]
  intro base hbase hcovers
  rw [Bool.and_eq_true, decide_eq_true_iff, decide_eq_true_iff] at hcovers
  have hapart := hzeros base hbase
  omega

theorem isDigit_of_isAlpha {c : Char} (h : c.isAlpha = true) : c.isDigit = false := by
  refine Bool.eq_false_iff.mpr fun hdigit => ?_
  have hdecimal := Text.isDecimal_of_isDigit hdigit
  rw [isDecimal_of_isAlpha h] at hdecimal
  cases hdecimal

theorem endsWord_of_isAlphanum {c : Char} (h : c.isAlphanum = true) :
    endsWord c = (c.isLower || c.isDigit) := by
  rw [endsWord]
  rcases Bool.or_eq_true_iff.mp h with halpha | hdigit
  · rw [isDecimal_of_isAlpha halpha, isDigit_of_isAlpha halpha]
  · rw [Text.isDecimal_of_isDigit hdigit, hdigit]

theorem not_endsWord_of_isUpper {c : Char} (h : c.isUpper = true) : endsWord c = false := by
  have halpha : c.isAlpha = true := isAlpha_iff.mpr (.inl h)
  rw [endsWord, isDecimal_of_isAlpha halpha, Bool.or_false]
  exact Bool.eq_false_iff.mpr (not_isLower_of_isUpper h)

/-- The second substitution sets a blank before a capital behind a small letter or a digit. Where
the scan goes on behind a capital, no word starts at the next character. -/
theorem substituteFrom_edgeRule (text : List Char) (before : Char) (seen : Option Char)
    (h : ∀ c ∈ text.head?, startsEdge before c = false) :
    Text.substituteFrom edgeRule 0 seen text =
      spacedBy (fun b c _ => startsEdge b c) before text := by
  induction hn : text.length using Nat.strong_induction_on generalizing text before seen with
  | _ n ih =>
    subst hn
    cases text with
    | nil => rfl
    | cons c rest =>
      rw [spacedBy_cons_of_not (h c rfl)]
      cases rest with
      | nil => rfl
      | cons d rest =>
        cases hedge : startsEdge c d with
        | true =>
          have hd : d.isUpper = true := (Bool.and_eq_true_iff.mp hedge).2
          have hapart : ∀ e ∈ rest.head?, startsEdge d e = false := by
            intro e he
            rw [startsEdge, not_endsWord_of_isUpper hd, Bool.false_and]
          have hshorter : rest.length < (c :: d :: rest).length := by
            simp only [List.length_cons]
            omega
          have hrest := ih rest.length hshorter rest d (some d) hapart rfl
          rw [spacedBy_cons_of hedge, ← hrest, Text.substituteFrom]
          have hrule : edgeRule seen (c :: d :: rest) = some (2, [c, ' ', d]) := if_pos hedge
          simp [hrule, Text.substituteFrom]
        | false =>
          have hrest := ih (d :: rest).length (by simp) (d :: rest) c (some c)
            (by rintro _ ⟨⟩; exact hedge) rfl
          have hrule : edgeRule seen (c :: d :: rest) = none :=
            if_neg (Bool.eq_false_iff.mp hedge)
          rw [← hrest, Text.substituteFrom]
          simp [hrule]

/-- The name after both substitutions. -/
def substituted (name : List Char) : List Char :=
  Text.substitute edgeRule (Text.substitute humpRule name)

theorem substituted_eq (name : List Char) : substituted name =
    spacedBy (fun b c next => startsHump b c next || startsEdge b c) ' ' name := by
  have hblank : endsWord ' ' = false := by decide +kernel
  rw [substituted, Text.substitute, Text.substitute,
    substituteFrom_humpRule name ' ' none (fun hupper => by cases hupper),
    substituteFrom_edgeRule _ ' ' none (by simp [startsEdge, hblank])]
  exact spacedBy_spacedBy (by simp [startsEdge, hblank]) (by simp [startsEdge]) startsHump ' ' name

/-- The digits of other scripts are in no word, so that it does not matter whether a capital is
parted from them. -/
theorem splitWords_eq (name : List Char) : splitWords name =
    (Text.runs Char.isAlphanum (substituted name)).map (·.map Char.toLower) := by
  have hstarts : ∀ b c next, b.isAlphanum = true →
      startsWord b c next = (startsHump b c next || startsEdge b c) := by
    intro b c next hb
    rw [startsWord, startsHump, startsEdge, endsWord_of_isAlphanum hb]
    cases c.isUpper with
    | false => simp
    | true => cases b.isLower <;> cases b.isDigit <;> cases b.isUpper <;> simp
  rw [splitWords, spaced_eq_spacedBy, substituted_eq]
  exact congrArg (List.map _) (sameRuns_spacedBy (by decide) hstarts ' ' name).1

/-- The words of a name hold small letters and digits, and one after the other they are the
letters and digits of the name in small letters: none is lost, doubled or moved. They are the
runs of letters and digits that two substitutions leave, which only set blanks into the name. -/
theorem letters_of_splitWords (name : List Char) :
    (∀ w ∈ splitWords name, w ≠ [] ∧ ∀ c ∈ w, c.isLower = true ∨ c.isDigit = true) ∧
    (splitWords name).flatten = (name.filter Char.isAlphanum).map Char.toLower ∧
    splitWords name =
      (Text.runs Char.isAlphanum (substituted name)).map (·.map Char.toLower) ∧
    name.Sublist (substituted name) ∧
    (substituted name).filter (· ≠ ' ') = name.filter (· ≠ ' ') := by
  refine ⟨fun w hw => ?_, ?_, splitWords_eq name, ?_, ?_⟩
  · obtain ⟨hne, hall⟩ := isAlphanum_of_splitWords hw
    refine ⟨hne, fun c hc => ?_⟩
    have hsmall := isUpper_of_splitWords hw c hc
    refine (Bool.or_eq_true_iff.mp (hall c hc)).imp_left fun halpha => ?_
    exact (isAlpha_iff.mp halpha).resolve_left (by simp [hsmall])
  · rw [splitWords, ← List.map_flatten, Text.flatten_runs, filter_spaced _ (by decide)]
  · rw [substituted_eq]
    exact sublist_spacedBy _ ' ' name
  · rw [substituted_eq]
    exact filter_spacedBy (by simp) _ ' ' name

end ApiContract.Naming
