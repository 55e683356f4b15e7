import ApiContract.Contract.Reader
import ApiContract.Proofs.Endpoint.Signing
import ApiContract.Proofs.Text.Digits

/-! # The primary response

The lowest of the success responses is the first of those with the least order. The order of a
code of digits is its number. A range code has the order of the last code of its hundred, so
that it stands behind all other codes of three digits, but not behind that one.
-/
namespace ApiContract.Signature

variable {settings : Settings} {code : String} {n : ℕ}

/-- A code of three digits. -/
def IsExplicit (code : String) : Prop :=
  code.toList.length = 3 ∧ ∀ c ∈ code.toList, Text.isDecimal c = true

/-- A code of one or two digits. -/
def IsShort (code : String) : Prop :=
  code.toList.length < 3 ∧ ∀ c ∈ code.toList, Text.isDecimal c = true

/-- A code that is no row of digits. -/
def IsRange (code : String) : Prop := ∃ c ∈ code.toList, Text.isDigitLike c = false

/-- A row of digits that is not read as a number, over a digit without a place value or over
its length. -/
def IsUnnumbered (code : String) : Prop :=
  (∀ c ∈ code.toList, Text.isDigitLike c = true) ∧ Text.numeral? code.toList = none

instance : Decidable (IsExplicit code) :=
  decidable_of_iff (code.toList.length = 3 ∧ code.toList.all Text.isDecimal = true)
    (and_congr_right fun _ => List.all_eq_true)

instance : Decidable (IsShort code) :=
  decidable_of_iff (code.toList.length < 3 ∧ code.toList.all Text.isDecimal = true)
    (and_congr_right fun _ => List.all_eq_true)

instance : Decidable (IsRange code) :=
  decidable_of_iff (code.toList.any (fun c => !Text.isDigitLike c) = true) (by simp [IsRange])

instance : Decidable (IsUnnumbered code) :=
  decidable_of_iff (code.toList.all Text.isDigitLike = true ∧ Text.numeral? code.toList = none)
    (and_congr_left fun _ => List.all_eq_true)

/-- The number of a code; none counts as zero. -/
def number (code : String) : ℕ := (Text.numeral? code.toList).getD 0

def order (code : String) : ℕ := (statusOrder code).toOption.getD 0

theorem order_eq (h : statusOrder code = .ok n) : order code = n := by
  rw [order, h]
  rfl

theorem number_eq (h : Text.numeral? code.toList = some n) : number code = n := by
  rw [number, h]
  rfl

theorem IsRange.not_isDecimal (h : IsRange code) : ¬∀ c ∈ code.toList, Text.isDecimal c = true := by
  obtain ⟨c, hc, hrange⟩ := h
  intro hall
  rw [Text.isDigitLike_of_isDecimal (hall c hc)] at hrange
  cases hrange

theorem IsRange.not_isExplicit (h : IsRange code) : ¬IsExplicit code :=
  fun hexplicit => h.not_isDecimal hexplicit.2

theorem isDecimal_of_numeral? (h : Text.numeral? code.toList = some n) :
    ∀ c ∈ code.toList, Text.isDecimal c = true := by
  obtain ⟨-, -, hn⟩ := Text.numeral?_eq_some.mp h
  exact Text.isSome_continued?.mp (Option.isSome_of_mem hn)

/-- A success code that has a number is short, or explicit, or longer and above all of these. -/
theorem isShort_or_of_numeral? (start : code.toList.head? = some '2')
    (h : Text.numeral? code.toList = some n) :
    IsShort code ∧ n < 200 ∨ IsExplicit code ∧ 200 ≤ n ∧ n ≤ 299 ∨
      300 ≤ n ∧ 3 < code.toList.length := by
  obtain ⟨rest, hcode⟩ := List.head?_eq_some_iff.mp start
  have hdecimal := isDecimal_of_numeral? h
  have hlength : code.toList.length = rest.length + 1 := by rw [hcode, List.length_cons]
  have htwo : Text.decimalValue? '2' = some 2 := by decide
  rw [hcode] at h
  obtain ⟨hlow, hhigh⟩ := Text.numeral?_bounds htwo h
  rcases Nat.lt_trichotomy rest.length 2 with hshort | hthree | hlong
  · have hpow : 10 ^ rest.length ≤ 10 ^ 1 := Nat.pow_le_pow_right (by decide) (by omega)
    exact .inl ⟨⟨by omega, hdecimal⟩, by omega⟩
  · rw [hthree] at hlow hhigh
    exact .inr (.inl ⟨⟨by omega, hdecimal⟩, by omega, by omega⟩)
  · have hpow : 10 ^ 3 ≤ 10 ^ rest.length := Nat.pow_le_pow_right (by decide) hlong
    exact .inr (.inr ⟨by omega, by omega⟩)

/-- The order of a success code: none for an unnumbered code, the last of the hundred for a
range, and the number for a row of digits. -/
theorem statusOrder_cases (start : code.toList.head? = some '2') :
    IsUnnumbered code ∧ statusOrder code = .error .notNumber ∨
      IsRange code ∧ statusOrder code = .ok 299 ∨
      Text.numeral? code.toList = some (order code) ∧ statusOrder code = .ok (order code) := by
  obtain ⟨rest, hcode⟩ := List.head?_eq_some_iff.mp start
  have hne : code.toList.isEmpty = false := by rw [hcode]; rfl
  by_cases hdigits : code.toList.all Text.isDigitLike = true
  · have hstatus : statusOrder code = need .notNumber (Text.numeral? code.toList) := by
      simp only [statusOrder, hne, hdigits, Bool.not_false, Bool.and_self, if_true]
    cases hnumeral : Text.numeral? code.toList with
    | none =>
      rw [hnumeral] at hstatus
      exact .inl ⟨⟨List.all_eq_true.mp hdigits, hnumeral⟩, hstatus⟩
    | some n =>
      rw [hnumeral] at hstatus
      rw [order_eq hstatus]
      exact .inr (.inr ⟨rfl, hstatus⟩)
  · have htwo : Text.decimalValue? '2' = some 2 := by decide
    have hstatus : statusOrder code = .ok 299 := by
      simp only [statusOrder, hdigits, Bool.and_false, Bool.false_eq_true, if_false, start,
        Option.bind_some, htwo]
      rfl
    simp only [List.all_eq_true, not_forall, Bool.not_eq_true] at hdigits
    obtain ⟨c, hc, hrange⟩ := hdigits
    exact .inr (.inl ⟨⟨c, hc, hrange⟩, hstatus⟩)

theorem statusOrder_of_isUnnumbered (start : code.toList.head? = some '2')
    (h : IsUnnumbered code) : statusOrder code = .error .notNumber := by
  rcases statusOrder_cases start with ⟨-, hstatus⟩ | ⟨⟨c, hc, hrange⟩, -⟩ | ⟨hnumeral, -⟩
  · exact hstatus
  · cases (h.1 c hc).symm.trans hrange
  · cases h.2.symm.trans hnumeral

/-- The chosen response is the first of those with the least order. -/
structure IsFirstLeast (before : List Response) (chosen : Response) (after : List Response) :
    Prop where
  below : ∀ r ∈ before, order chosen.code < order r.code
  least : ∀ r ∈ after, order chosen.code ≤ order r.code

/-- The better of the best response so far and the next one. -/
def lower (best : Response × ℕ) (r : Response) : Outcome (Response × ℕ) := do
  let order ← statusOrder r.code
  pure (if order < best.2 then (r, order) else best)

theorem leastResponse_eq (first : Response) (rest : List Response) :
    leastResponse first rest = (do
      let start ← statusOrder first.code
      let best ← rest.foldlM lower (first, start)
      pure best.1) := rfl

/-- Going on over more responses, the best one is still the first of the least. -/
theorem exists_foldlM_lower {before after rest : List Response} {best : Response}
    (h : IsFirstLeast before best after)
    (ordered : ∀ r ∈ rest, statusOrder r.code = .ok (order r.code)) :
    ∃ before' chosen after', before ++ best :: after ++ rest = before' ++ chosen :: after' ∧
      IsFirstLeast before' chosen after' ∧
      rest.foldlM lower (best, order best.code) = .ok (chosen, order chosen.code) := by
  induction rest generalizing before best after with
  | nil => exact ⟨before, best, after, by simp, h, rfl⟩
  | cons r rest ih =>
    obtain ⟨hr, hrest⟩ := List.forall_mem_cons.mp ordered
    rw [List.foldlM_cons]
    by_cases hlower : order r.code < order best.code
    · have hstep : lower (best, order best.code) r = .ok (r, order r.code) := by
        simp [lower, hr, hlower, bind, Except.bind, pure, Except.pure]
      have hnext : IsFirstLeast (before ++ best :: after) r [] :=
        ⟨fun s hs => by
          rcases List.mem_append.mp hs with hs | hs
          · exact lt_trans hlower (h.below s hs)
          · rcases List.mem_cons.mp hs with rfl | hs
            · exact hlower
            · exact lt_of_lt_of_le hlower (h.least s hs),
          fun s hs => (List.not_mem_nil hs).elim⟩
      obtain ⟨before', chosen, after', heq, hleast, hfold⟩ := ih hnext hrest
      refine ⟨before', chosen, after', ?_, hleast, ?_⟩
      · rw [← heq]
        simp
      · rw [hstep]
        exact hfold
    · have hstep : lower (best, order best.code) r = .ok (best, order best.code) := by
        simp [lower, hr, hlower, bind, Except.bind, pure, Except.pure]
      have hnext : IsFirstLeast before best (after ++ [r]) := by
        refine ⟨h.below, List.forall_mem_append.mpr ⟨h.least, ?_⟩⟩
        exact List.forall_mem_singleton.mpr (not_lt.mp hlower)
      obtain ⟨before', chosen, after', heq, hleast, hfold⟩ := ih hnext hrest
      refine ⟨before', chosen, after', ?_, hleast, ?_⟩
      · rw [← heq]
        simp
      · rw [hstep]
        exact hfold

theorem foldlM_lower_of_unnumbered {rest : List Response} {best : Response × ℕ}
    (each : ∀ r ∈ rest, statusOrder r.code = .error .notNumber ∨ ∃ n, statusOrder r.code = .ok n)
    (unnumbered : ∃ r ∈ rest, statusOrder r.code = .error .notNumber) :
    rest.foldlM lower best = .error .notNumber := by
  induction rest generalizing best with
  | nil =>
    obtain ⟨r, hr, -⟩ := unnumbered
    cases hr
  | cons r rest ih =>
    obtain ⟨hr, hrest⟩ := List.forall_mem_cons.mp each
    rw [List.foldlM_cons, Outcome.bind_eq_error]
    rcases hr with hfails | ⟨n, hn⟩
    · exact .inl (Outcome.bind_eq_error.mpr (.inl hfails))
    · refine .inr ⟨_, Outcome.bind_eq_ok.mpr ⟨n, hn, rfl⟩, ih hrest ?_⟩
      obtain ⟨s, hs, hfails⟩ := unnumbered
      rcases List.mem_cons.mp hs with rfl | hs
      · cases hn.symm.trans hfails
      · exact ⟨s, hs, hfails⟩

section Choice

variable {first : Response} {rest : List Response}

theorem exists_leastResponse
    (ordered : ∀ r ∈ first :: rest, statusOrder r.code = .ok (order r.code)) :
    ∃ before chosen after, first :: rest = before ++ chosen :: after ∧
      IsFirstLeast before chosen after ∧ leastResponse first rest = .ok chosen := by
  obtain ⟨hfirst, hrest⟩ := List.forall_mem_cons.mp ordered
  have halone : IsFirstLeast [] first [] :=
    ⟨fun r hr => (List.not_mem_nil hr).elim, fun r hr => (List.not_mem_nil hr).elim⟩
  obtain ⟨before, chosen, after, heq, hleast, hfold⟩ := exists_foldlM_lower halone hrest
  refine ⟨before, chosen, after, heq, hleast, ?_⟩
  rw [leastResponse_eq]
  exact Outcome.bind_eq_ok.mpr ⟨_, hfirst, Outcome.bind_eq_ok.mpr ⟨_, hfold, rfl⟩⟩

theorem leastResponse_of_unnumbered
    (each : ∀ r ∈ first :: rest,
      statusOrder r.code = .error .notNumber ∨ ∃ n, statusOrder r.code = .ok n)
    (unnumbered : ∃ r ∈ first :: rest, statusOrder r.code = .error .notNumber) :
    leastResponse first rest = .error .notNumber := by
  obtain ⟨hfirst, hrest⟩ := List.forall_mem_cons.mp each
  rw [leastResponse_eq, Outcome.bind_eq_error]
  rcases hfirst with hfails | ⟨n, hn⟩
  · exact .inl hfails
  · refine .inr ⟨n, hn, Outcome.bind_eq_error.mpr (.inl (foldlM_lower_of_unnumbered hrest ?_))⟩
    obtain ⟨s, hs, hfails⟩ := unnumbered
    rcases List.mem_cons.mp hs with rfl | hs
    · cases hn.symm.trans hfails
    · exact ⟨s, hs, hfails⟩

end Choice

/-- The response has the smallest number of all with a code of three digits. -/
structure IsLowest (responses : List Response) (r : Response) : Prop where
  mem : r ∈ responses
  explicit : IsExplicit r.code
  least : ∀ s ∈ responses, IsExplicit s.code → number r.code ≤ number s.code

/-- A range code comes before all codes of three digits, which are the last of the hundred. -/
def IsTied (responses : List Response) : Prop :=
  ∃ before range after, responses = before ++ range :: after ∧ IsRange range.code ∧
    (∀ r ∈ before, ¬IsExplicit r.code) ∧ ∀ r ∈ after, IsExplicit r.code → number r.code = 299

theorem IsTied.number_eq {responses : List Response} (h : IsTied responses) {r : Response}
    (member : r ∈ responses) (explicit : IsExplicit r.code) : number r.code = 299 := by
  obtain ⟨before, range, after, rfl, hrange, hbefore, hafter⟩ := h
  rcases List.mem_append.mp member with hr | hr
  · exact absurd explicit (hbefore r hr)
  · rcases List.mem_cons.mp hr with rfl | hr
    · exact absurd explicit hrange.not_isExplicit
    · exact hafter r hr explicit

variable {op : Operation}

theorem head?_of_mem_candidates {r : Response} (h : r ∈ candidates op) :
    r.code.toList.head? = some '2' := by
  obtain ⟨-, hr⟩ := List.mem_filter.mp h
  exact eq_of_beq (Bool.and_eq_true_iff.mp hr).1

/-- What the order of a candidate says of its code, when it has one. -/
theorem order_of_mem_candidates {r : Response} (h : r ∈ candidates op)
    (numbered : ¬IsUnnumbered r.code) :
    statusOrder r.code = .ok (order r.code) ∧
      (IsRange r.code ∧ order r.code = 299 ∨ ¬IsRange r.code ∧
        (IsShort r.code ∧ order r.code < 200 ∨
          IsExplicit r.code ∧ 200 ≤ order r.code ∧ order r.code ≤ 299 ∨
          300 ≤ order r.code ∧ 3 < r.code.toList.length)) := by
  have hstart := head?_of_mem_candidates h
  rcases statusOrder_cases hstart with ⟨hnone, -⟩ | ⟨hrange, hstatus⟩ | ⟨hnumeral, hstatus⟩
  · exact absurd hnone numbered
  · rw [order_eq hstatus]
    exact ⟨hstatus, .inl ⟨hrange, rfl⟩⟩
  · exact ⟨hstatus, .inr ⟨fun hrange => hrange.not_isDecimal (isDecimal_of_numeral? hnumeral),
      isShort_or_of_numeral? hstart hnumeral⟩⟩

theorem order_of_isRange {r : Response} (h : IsRange r.code) (member : r ∈ candidates op)
    (numbered : ¬IsUnnumbered r.code) : order r.code = 299 := by
  rcases (order_of_mem_candidates member numbered).2 with ⟨-, horder⟩ | ⟨hrange, -⟩
  · exact horder
  · exact absurd h hrange

theorem order_of_isShort {r : Response} (h : IsShort r.code) (member : r ∈ candidates op)
    (numbered : ¬IsUnnumbered r.code) : order r.code < 200 := by
  have hlength := h.1
  rcases (order_of_mem_candidates member numbered).2 with
    ⟨hrange, -⟩ | ⟨-, ⟨-, horder⟩ | ⟨⟨hthree, -⟩, -⟩ | ⟨-, hlong⟩⟩
  · exact absurd h.2 hrange.not_isDecimal
  · exact horder
  · omega
  · omega

theorem IsExplicit.not_isUnnumbered (h : IsExplicit code) : ¬IsUnnumbered code := by
  rintro ⟨-, hnone⟩
  have hne : code.toList ≠ [] := List.ne_nil_of_length_eq_add_one h.1
  have hlong := (Text.numeral?_eq_none_iff hne h.2).mp hnone
  rw [h.1] at hlong
  exact absurd hlong (by decide)

theorem IsExplicit.order_eq_number {r : Response} (h : IsExplicit r.code)
    (member : r ∈ candidates op) :
    order r.code = number r.code ∧ 200 ≤ order r.code ∧ order r.code ≤ 299 := by
  have hstart := head?_of_mem_candidates member
  have hlength := h.1
  rcases statusOrder_cases hstart with ⟨hnone, -⟩ | ⟨hrange, -⟩ | ⟨hnumeral, -⟩
  · exact absurd hnone h.not_isUnnumbered
  · exact absurd h hrange.not_isExplicit
  · refine ⟨(number_eq hnumeral).symm, ?_⟩
    rcases isShort_or_of_numeral? hstart hnumeral with ⟨⟨hshort, -⟩, -⟩ | ⟨-, hbounds⟩ | ⟨-, hlong⟩
    · omega
    · exact hbounds
    · omega

theorem IsFirstLeast.le {before after : List Response} {chosen : Response}
    (h : IsFirstLeast before chosen after) :
    ∀ r ∈ before ++ chosen :: after, order chosen.code ≤ order r.code :=
  List.forall_mem_append.mpr ⟨fun r hr => le_of_lt (h.below r hr),
    List.forall_mem_cons.mpr ⟨le_rfl, h.least⟩⟩

/-- A tied range code stands before the explicit codes and has their order. -/
theorem IsFirstLeast.not_isExplicit {before after : List Response} {chosen : Response}
    (h : IsFirstLeast before chosen after) (all : candidates op = before ++ chosen :: after)
    (tied : IsTied (candidates op)) (horder : ∀ r ∈ candidates op, IsRange r.code →
      order r.code = 299) : ¬IsExplicit chosen.code := by
  intro hexplicit
  have hchosen : chosen ∈ candidates op := by simp [all]
  have hnumber := hexplicit.order_eq_number hchosen
  obtain ⟨first, range, last, hsplit, hrange, hfirst, hlast⟩ := tied
  have hsame : before ++ chosen :: after = first ++ range :: last := all.symm.trans hsplit
  have hrangeOrder := horder range (by simp [hsplit]) hrange
  rcases List.append_eq_append_iff.mp hsame with ⟨mid, hmid, hrest⟩ | ⟨mid, hmid, hrest⟩
  · cases mid with
    | nil =>
      obtain rfl : chosen = range := (List.cons.inj hrest).1
      exact hrange.not_isExplicit hexplicit
    | cons s mid =>
      obtain rfl : chosen = s := (List.cons.inj hrest).1
      exact hfirst chosen (by simp [hmid]) hexplicit
  · cases mid with
    | nil =>
      obtain rfl : range = chosen := (List.cons.inj hrest).1
      exact hrange.not_isExplicit hexplicit
    | cons s mid =>
      obtain ⟨hs, hrest⟩ := List.cons.inj hrest
      have hbelow := h.below range (by simp [hmid, hs])
      have hlastNumber := hlast chosen (by simp [hrest]) hexplicit
      omega

section Chosen

/- One candidate is explicit, and none is a row of digits that is no number. -/
variable {before after : List Response} {chosen r : Response}
variable (h : IsFirstLeast before chosen after) (all : candidates op = before ++ chosen :: after)
variable (numbered : ∀ r ∈ candidates op, ¬IsUnnumbered r.code)
variable (member : r ∈ candidates op) (explicit : IsExplicit r.code)
include h all numbered member explicit

theorem IsFirstLeast.kind :
    IsRange chosen.code ∧ order chosen.code = 299 ∨ IsShort chosen.code ∧ order chosen.code < 200 ∨
      IsExplicit chosen.code := by
  have hchosen : chosen ∈ candidates op := by simp [all]
  have hle := h.le r (all ▸ member)
  obtain ⟨-, -, hbound⟩ := explicit.order_eq_number member
  obtain ⟨-, hkind⟩ := order_of_mem_candidates hchosen (numbered chosen hchosen)
  rcases hkind with hrange | ⟨-, hshort | ⟨hexplicit, -⟩ | ⟨hlong, -⟩⟩
  · exact .inl hrange
  · exact .inr (.inl hshort)
  · exact .inr (.inr hexplicit)
  · omega

theorem IsFirstLeast.isShort_iff : IsShort chosen.code ↔ ∃ s ∈ candidates op, IsShort s.code := by
  have hchosen : chosen ∈ candidates op := by simp [all]
  refine ⟨fun hc => ⟨chosen, hchosen, hc⟩, ?_⟩
  rintro ⟨s, hs, hshort⟩
  have hle := h.le s (all ▸ hs)
  have hsorder := order_of_isShort hshort hs (numbered s hs)
  rcases h.kind all numbered member explicit with ⟨-, horder⟩ | ⟨hc, -⟩ | hc
  · omega
  · exact hc
  · have horder := hc.order_eq_number hchosen
    omega

theorem IsFirstLeast.isRange_iff : IsRange chosen.code ↔
    (∀ s ∈ candidates op, ¬IsShort s.code) ∧ IsTied (candidates op) := by
  have hchosen : chosen ∈ candidates op := by simp [all]
  constructor
  · intro hc
    have horder := order_of_isRange hc hchosen (numbered chosen hchosen)
    have hshort := h.isShort_iff all numbered member explicit
    refine ⟨fun s hs hsshort => ?_, before, chosen, after, all, hc, fun s hs hx => ?_,
      fun s hs hx => ?_⟩
    · exact hc.not_isDecimal (hshort.mpr ⟨s, hs, hsshort⟩).2
    · have hbelow := h.below s hs
      have hbounds := hx.order_eq_number (show _ ∈ candidates op by simp [all, hs])
      omega
    · have hleast := h.least s hs
      have hbounds := hx.order_eq_number (show _ ∈ candidates op by simp [all, hs])
      omega
  · rintro ⟨hnone, tied⟩
    rcases h.kind all numbered member explicit with ⟨hc, -⟩ | ⟨hc, -⟩ | hc
    · exact hc
    · exact absurd hc (hnone chosen hchosen)
    · exact absurd hc (h.not_isExplicit all tied fun s hs hx =>
        order_of_isRange hx hs (numbered s hs))

theorem IsFirstLeast.isLowest_iff : IsLowest (candidates op) chosen ↔
    (∀ s ∈ candidates op, ¬IsShort s.code) ∧ ¬IsTied (candidates op) := by
  have hchosen : chosen ∈ candidates op := by simp [all]
  have hrange := h.isRange_iff all numbered member explicit
  constructor
  · intro hlowest
    have hexplicit := hlowest.explicit
    have hnone : ∀ s ∈ candidates op, ¬IsShort s.code := by
      intro s hs hshort
      have hlength := ((h.isShort_iff all numbered member explicit).mpr ⟨s, hs, hshort⟩).1
      have hthree := hexplicit.1
      omega
    exact ⟨hnone, fun tied => (hrange.mpr ⟨hnone, tied⟩).not_isExplicit hexplicit⟩
  · rintro ⟨hnone, untied⟩
    have hexplicit : IsExplicit chosen.code := by
      rcases h.kind all numbered member explicit with ⟨hc, -⟩ | ⟨hc, -⟩ | hc
      · exact absurd (hrange.mp hc).2 untied
      · exact absurd hc (hnone chosen hchosen)
      · exact hc
    refine ⟨hchosen, hexplicit, fun s hs hx => ?_⟩
    rw [← (hexplicit.order_eq_number hchosen).1, ← (hx.order_eq_number hs).1]
    exact h.le s (all ▸ hs)

end Chosen

theorem primaryResponse_of_leastResponse {first : Response} {rest : List Response}
    (rule : settings.responseRule = .lowest) (all : candidates op = first :: rest) (w : Workspace) :
    match leastResponse first rest with
    | .ok chosen => ∃ w', primaryResponse settings op w = .ok (some chosen) w'
    | .error e => primaryResponse settings op w = .error e w := by
  rw [primaryResponse_eq_of_cons all, chosenResponse, rule]
  dsimp only
  cases leastResponse first rest with
  | error e => rfl
  | ok chosen =>
    dsimp only [Step.lift]
    unfold reportAmbiguous
    split
    · exact ⟨_, rfl⟩
    · exact ⟨_, rfl⟩

/-- Whatever comes before or after it, a code of digits that is no number ends the search. -/
theorem primaryResponse_of_unnumbered (rule : settings.responseRule = .lowest) {r : Response}
    (member : r ∈ candidates op) (unnumbered : IsUnnumbered r.code) (w : Workspace) :
    primaryResponse settings op w = .error .notNumber w := by
  obtain ⟨first, rest, hcandidates⟩ := List.exists_cons_of_ne_nil (List.ne_nil_of_mem member)
  have hprimary := primaryResponse_of_leastResponse rule hcandidates w
  have hleast : leastResponse first rest = .error .notNumber := by
    refine leastResponse_of_unnumbered (fun s hs => ?_) ⟨r, hcandidates ▸ member, ?_⟩
    · rcases statusOrder_cases (head?_of_mem_candidates (hcandidates ▸ hs)) with h | h | h
      · exact .inl h.2
      · exact .inr ⟨_, h.2⟩
      · exact .inr ⟨_, h.2⟩
    · exact statusOrder_of_isUnnumbered (head?_of_mem_candidates member) unnumbered
  rwa [hleast] at hprimary

/-- Among candidates of which one has a code of three digits, the lowest is looked for. The
search fails when some code is a row of digits that is no number. Otherwise a candidate is
chosen: a short one if there is one, and else the range code if it is tied with the explicit
codes. Exactly when there is neither, the choice is the candidate whose code of three digits
is the smallest, in whatever order they are declared. -/
theorem primaryResponse_lowest {r₀ : Response} (rule : settings.responseRule = .lowest)
    (member : r₀ ∈ candidates op) (explicit : IsExplicit r₀.code) (w : Workspace) :
    ((∃ r ∈ candidates op, IsUnnumbered r.code) →
      primaryResponse settings op w = .error .notNumber w) ∧
    ((∀ r ∈ candidates op, ¬IsUnnumbered r.code) → ∃ chosen ∈ candidates op,
      (∃ w', primaryResponse settings op w = .ok (some chosen) w') ∧
      (IsShort chosen.code ↔ ∃ r ∈ candidates op, IsShort r.code) ∧
      (IsRange chosen.code ↔
        (∀ r ∈ candidates op, ¬IsShort r.code) ∧ IsTied (candidates op)) ∧
      (IsLowest (candidates op) chosen ↔
        (∀ r ∈ candidates op, ¬IsShort r.code) ∧ ¬IsTied (candidates op))) := by
  constructor
  · rintro ⟨r, hr, hunnumbered⟩
    exact primaryResponse_of_unnumbered rule hr hunnumbered w
  · intro numbered
    obtain ⟨first, rest, hcandidates⟩ := List.exists_cons_of_ne_nil (List.ne_nil_of_mem member)
    have hprimary := primaryResponse_of_leastResponse rule hcandidates w
    have hordered : ∀ r ∈ first :: rest, statusOrder r.code = .ok (order r.code) :=
      fun r hr => (order_of_mem_candidates (hcandidates ▸ hr) (numbered r (hcandidates ▸ hr))).1
    obtain ⟨before, chosen, after, hsplit, hfirst, hleast⟩ := exists_leastResponse hordered
    rw [hleast] at hprimary
    have hall : candidates op = before ++ chosen :: after := hcandidates.trans hsplit
    exact ⟨chosen, by simp [hall], hprimary, hfirst.isShort_iff hall numbered member explicit,
      hfirst.isRange_iff hall numbered member explicit,
      hfirst.isLowest_iff hall numbered member explicit⟩

/-- An operation that answers with a payload under each of the codes. -/
def answering (codes : List String) : Operation :=
  { method := "get", path := "/items",
    responses := codes.map fun code =>
      (code, { code, content := [(.text "application/json", none)] }) }

theorem primaryResponse_lowest_created :
    ∃ chosen w, primaryResponse {} (answering ["2XX", "202", "201"]) {} = .ok (some chosen) w ∧
      chosen.code = "201" := by
  have hcodes : (candidates (answering ["2XX", "202", "201"])).map Response.code =
      ["2XX", "202", "201"] := by decide +kernel
  have hall : ∀ code ∈ (candidates (answering ["2XX", "202", "201"])).map Response.code,
      ¬IsUnnumbered code ∧ ¬IsShort code ∧
        (IsExplicit code → code ≠ "201" → 201 < number code) := by
    rw [hcodes]
    decide +kernel
  obtain ⟨r, hr, hcode⟩ := List.mem_map.mp
    (show "201" ∈ (candidates (answering ["2XX", "202", "201"])).map Response.code by simp [hcodes])
  have hexplicit : IsExplicit r.code := hcode ▸ (by decide +kernel)
  have rule : ({} : Settings).responseRule = .lowest := rfl
  obtain ⟨chosen, hchosen, ⟨w, hprimary⟩, -, -, hlowest⟩ :=
    (primaryResponse_lowest rule hr hexplicit {}).2 fun s hs =>
      (hall _ (List.mem_map_of_mem hs)).1
  have huntied : ¬IsTied (candidates (answering ["2XX", "202", "201"])) := fun tied => by
    have hnumber := tied.number_eq hr hexplicit
    rw [hcode] at hnumber
    exact absurd hnumber (by decide +kernel)
  have hleast := hlowest.mpr ⟨fun s hs => (hall _ (List.mem_map_of_mem hs)).2.1, huntied⟩
  refine ⟨chosen, w, hprimary, ?_⟩
  by_contra hne
  have hmore := (hall _ (List.mem_map_of_mem hchosen)).2.2 hleast.explicit hne
  have hless := hleast.least r hr hexplicit
  rw [hcode, show number "201" = 201 by decide +kernel] at hless
  omega

/-- A document with an operation that answers with a text or, under the last code of the
hundred, with an integer. -/
def rangedDocument : Tree :=
  let answer (kind : String) : Tree := .map [
    (.text "description", .text "ok"),
    (.text "content", .map [
      (.text "application/json", .map [(.text "schema", .map [(.text "type", .text kind)])])])]
  .map [
    (.text "openapi", .text "3.0.0"),
    (.text "paths", .map [
      (.text "/items", .map [
        (.text "get", .map [
          (.text "responses", .map [
            (.text "2XX", answer "string"), (.text "299", answer "integer")])])])])]

/-- The codes of the success responses of the first operation, and the one that is chosen. -/
def chosenCode (contract : Contract) : Option (List String × Option String) :=
  contract.operations.head?.bind fun op =>
    (Step.outcome (primaryResponse {} op (.fresh contract))).1.toOption.map fun chosen =>
      ((candidates op).map Response.code, chosen.map Response.code)

/-- The range code is chosen, although there is a response with a code of three digits. -/
theorem primaryResponse_range_first :
    IsExplicit "299" ∧ IsRange "2XX" ∧
      ∃ contract op chosen w, Contract.ofTree rangedDocument = .ok contract ∧
        op ∈ contract.operations ∧ (candidates op).map Response.code = ["2XX", "299"] ∧
        primaryResponse {} op (.fresh contract) = .ok (some chosen) w ∧ chosen.code = "2XX" := by
  refine ⟨by decide +kernel, by decide +kernel, ?_⟩
  obtain ⟨contract, parsed, hchosen⟩ := Outcome.exists_of_map_toOption
    (o := Contract.ofTree rangedDocument) (f := chosenCode)
    (b := some (["2XX", "299"], some "2XX")) (by decide +kernel)
  obtain ⟨op, hop, hcodes⟩ := Option.bind_eq_some_iff.mp hchosen
  obtain ⟨primary, w, hprimary, hcodes⟩ := Step.exists_of_outcome hcodes
  obtain ⟨hall, hcode⟩ := Prod.mk.inj hcodes
  obtain ⟨chosen, rfl, hlast⟩ := Option.map_eq_some_iff.mp hcode
  exact ⟨contract, op, chosen, w, parsed, List.mem_of_mem_head? hop, hall, hprimary, hlast⟩

end ApiContract.Signature
