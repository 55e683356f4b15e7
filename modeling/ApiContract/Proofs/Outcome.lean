import Mathlib.Data.List.Forall2
import ApiContract.Tree.Written

/-! # Outcomes

An outcome is a value or a failure. A composed outcome has a value when all its parts
have one, and it fails only in the ways in which its parts do.
-/
namespace ApiContract

def Failure.isSchema : Failure → Bool
  | schema .. => true
  | _ => false

/-- Whether a failure is about the signatures that are stored. -/
def Failure.isSigning : Failure → Bool
  | alreadySigned _ => true
  | unsigned _ => true
  | _ => false

section Rows

variable {α β : Type} {R : α → β → Prop} {as : List α} {bs : List β}

/-- In rows that are related item by item, each item of the first has one in the second. -/
theorem exists_right_of_forall₂ (h : List.Forall₂ R as bs) {a : α} (ha : a ∈ as) :
    ∃ b ∈ bs, R a b := by
  induction h with
  | nil => cases ha
  | cons hR _ ih =>
    rcases List.mem_cons.mp ha with rfl | ha
    · exact ⟨_, List.mem_cons_self, hR⟩
    · obtain ⟨b, hb, hR⟩ := ih ha
      exact ⟨b, List.mem_cons_of_mem _ hb, hR⟩

theorem exists_left_of_forall₂ (h : List.Forall₂ R as bs) {b : β} (hb : b ∈ bs) :
    ∃ a ∈ as, R a b :=
  exists_right_of_forall₂ (R := flip R) h.flip hb

theorem forall₂_trans {γ : Type} {S : β → γ → Prop} {cs : List γ} (h : List.Forall₂ R as bs)
    (h' : List.Forall₂ S bs cs) : List.Forall₂ (fun a c => ∃ b, R a b ∧ S b c) as cs := by
  induction h generalizing cs with
  | nil =>
    cases h'
    exact .nil
  | cons hfirst _ ih =>
    cases h' with
    | cons hsecond hrest => exact .cons ⟨_, hfirst, hsecond⟩ (ih hrest)

end Rows

namespace Outcome

variable {α β : Type}

theorem bind_eq_ok {x : Outcome α} {f : α → Outcome β} {b : β} :
    (x >>= f) = .ok b ↔ ∃ a, x = .ok a ∧ f a = .ok b := by
  cases x <;> simp [bind, Except.bind]

theorem bind_eq_error {x : Outcome α} {f : α → Outcome β} {e : Failure} :
    (x >>= f) = .error e ↔ x = .error e ∨ ∃ a, x = .ok a ∧ f a = .error e := by
  cases x <;> simp [bind, Except.bind]

theorem map_eq_ok {x : Outcome α} {f : α → β} {b : β} :
    x.map f = .ok b ↔ ∃ a, x = .ok a ∧ f a = b := by
  cases x <;> simp [Except.map]

theorem map_eq_error {x : Outcome α} {f : α → β} {e : Failure} :
    x.map f = .error e ↔ x = .error e := by
  cases x <;> simp [Except.map]

@[simp] theorem pure_eq_ok {a b : α} : (pure a : Outcome α) = .ok b ↔ a = b := by
  simp [pure, Except.pure]

theorem need_eq_ok {failure : Failure} {value : Option α} {a : α} :
    need failure value = .ok a ↔ value = some a := by
  cases value <;> simp [need]

theorem need_eq_error {failure e : Failure} {value : Option α} :
    need failure value = .error e ↔ value = none ∧ failure = e := by
  cases value <;> simp [need]

theorem exists_of_map_toOption {o : Outcome α} {f : α → β} {b : β}
    (h : o.toOption.map f = some b) : ∃ a, o = .ok a ∧ f a = b := by
  cases o with
  | error e => cases h
  | ok a => exact ⟨a, rfl, Option.some.inj h⟩

def failure? : Outcome α → Option Failure
  | .ok _ => none
  | .error e => some e

theorem failure?_eq_some {o : Outcome α} {e : Failure} : o.failure? = some e ↔ o = .error e := by
  cases o <;> simp [failure?]

theorem mapM_eq_ok_iff {f : α → Outcome β} {items : List α} {values : List β} :
    items.mapM f = .ok values ↔ List.Forall₂ (fun a b => f a = .ok b) items values := by
  induction items generalizing values with
  | nil =>
    rw [List.mapM_nil, pure_eq_ok, List.forall₂_nil_left_iff]
    exact eq_comm
  | cons a rest ih =>
    simp only [List.mapM_cons, bind_eq_ok, pure_eq_ok, ih, List.forall₂_cons_left_iff]
    constructor
    · rintro ⟨b, hb, bs, hbs, rfl⟩
      exact ⟨b, bs, hb, hbs, rfl⟩
    · rintro ⟨b, bs, hb, hbs, rfl⟩
      exact ⟨b, hb, bs, hbs, rfl⟩

theorem forall₂_of_mapM {f : α → Outcome β} {items : List α} {values : List β}
    (h : items.mapM f = .ok values) : List.Forall₂ (fun a b => f a = .ok b) items values :=
  mapM_eq_ok_iff.mp h

theorem map_of_mapM {γ : Type} {f : α → Outcome β} {k : β → γ} {g : α → γ} {items : List α}
    {values : List β} (hf : ∀ a b, f a = .ok b → k b = g a) (h : items.mapM f = .ok values) :
    values.map k = items.map g := by
  have hall := forall₂_of_mapM h
  clear h
  induction hall with
  | nil => rfl
  | cons hab _ ih => rw [List.map_cons, List.map_cons, hf _ _ hab, ih]

theorem exists_of_mem_mapM {f : α → Outcome β} {items : List α} {values : List β}
    (h : items.mapM f = .ok values) {b : β} (hb : b ∈ values) : ∃ a ∈ items, f a = .ok b :=
  exists_left_of_forall₂ (forall₂_of_mapM h) hb

theorem mem_of_mapM {f : α → Outcome β} {items : List α} {values : List β}
    (h : items.mapM f = .ok values) {a : α} (ha : a ∈ items) {b : β} (hb : f a = .ok b) :
    b ∈ values := by
  obtain ⟨b', hmem, hb'⟩ := exists_right_of_forall₂ (forall₂_of_mapM h) ha
  cases hb.symm.trans hb'
  exact hmem

/-- A row fails over one of its items. -/
theorem exists_of_mapM_eq_error {f : α → Outcome β} {items : List α} {failure : Failure}
    (h : items.mapM f = .error failure) : ∃ a ∈ items, f a = .error failure := by
  induction items with
  | nil => cases h
  | cons a rest ih =>
    rw [List.mapM_cons] at h
    rcases bind_eq_error.mp h with h | ⟨b, -, h⟩
    · exact ⟨a, List.mem_cons_self, h⟩
    · rcases bind_eq_error.mp h with h | ⟨bs, -, h⟩
      · obtain ⟨c, hc, hfails⟩ := ih h
        exact ⟨c, List.mem_cons_of_mem _ hc, hfails⟩
      · cases h

theorem foldlM_keeps {f : β → α → Outcome β} {P : β → Prop} {items : List α} {start final : β}
    (hf : ∀ s, P s → ∀ a ∈ items, ∀ s', f s a = .ok s' → P s') (hs : P start)
    (h : items.foldlM f start = .ok final) : P final := by
  induction items generalizing start with
  | nil =>
    simp only [List.foldlM_nil, pure_eq_ok] at h
    exact h ▸ hs
  | cons a rest ih =>
    rw [List.foldlM_cons] at h
    obtain ⟨s, hfs, h⟩ := bind_eq_ok.mp h
    exact ih (fun s hs b hb => hf s hs b (List.mem_cons_of_mem _ hb))
      (hf start hs a List.mem_cons_self s hfs) h

/-- A walk that adds one item for each that it comes to. -/
theorem forall₂_of_foldlM {σ γ : Type} {f : σ → α → Outcome σ} (view : σ → List γ)
    (R : α → γ → Prop)
    (hf : ∀ s a s', f s a = .ok s' → ∃ c, view s' = view s ++ [c] ∧ R a c)
    {items : List α} {start final : σ} (h : items.foldlM f start = .ok final) :
    ∃ new, view final = view start ++ new ∧ List.Forall₂ R items new := by
  induction items generalizing start with
  | nil =>
    cases h
    exact ⟨[], (List.append_nil _).symm, .nil⟩
  | cons a rest ih =>
    rw [List.foldlM_cons] at h
    obtain ⟨s, hs, h⟩ := bind_eq_ok.mp h
    obtain ⟨c, hc, hR⟩ := hf _ _ _ hs
    obtain ⟨new, hnew, hall⟩ := ih h
    exact ⟨c :: new, by rw [hnew, hc, List.append_assoc]; rfl, .cons hR hall⟩

/-- Reading each item right before it is used does what reading all of them first does, as
long as all can be read. -/
theorem foldlM_bind_of_mapM {σ : Type} {read : α → Outcome β} {use : σ → β → Outcome σ}
    {items : List α} {values : List β} (h : items.mapM read = .ok values) (start : σ) :
    items.foldlM (fun s a => read a >>= use s) start = values.foldlM use start := by
  induction mapM_eq_ok_iff.mp h generalizing start with
  | nil => rfl
  | @cons a b rest values ha hrest ih =>
    rw [List.foldlM_cons, List.foldlM_cons, ha]
    exact bind_congr fun s => ih (mapM_eq_ok_iff.mpr hrest) s

theorem exists_mapM_of_foldlM_bind {σ : Type} {read : α → Outcome β} {use : σ → β → Outcome σ}
    {items : List α} {start final : σ}
    (h : items.foldlM (fun s a => read a >>= use s) start = .ok final) :
    ∃ values, items.mapM read = .ok values ∧ values.foldlM use start = .ok final := by
  induction items generalizing start with
  | nil => exact ⟨[], rfl, h⟩
  | cons a rest ih =>
    rw [List.foldlM_cons] at h
    obtain ⟨s, hs, h⟩ := bind_eq_ok.mp h
    obtain ⟨b, hb, hs⟩ := bind_eq_ok.mp hs
    obtain ⟨values, hvalues, h⟩ := ih h
    refine ⟨b :: values, mapM_eq_ok_iff.mpr (.cons hb (mapM_eq_ok_iff.mp hvalues)), ?_⟩
    rw [List.foldlM_cons]
    exact bind_eq_ok.mpr ⟨s, hs, h⟩

/-- A walk that fails comes to the item that it fails at. -/
theorem foldlM_eq_error {f : β → α → Outcome β} {items : List α} {start : β} {e : Failure}
    (h : items.foldlM f start = .error e) :
    ∃ before a after s, items = before ++ a :: after ∧ before.foldlM f start = .ok s ∧
      f s a = .error e := by
  induction items generalizing start with
  | nil => cases h
  | cons a rest ih =>
    rw [List.foldlM_cons] at h
    rcases bind_eq_error.mp h with h | ⟨s, hs, h⟩
    · exact ⟨[], a, rest, start, rfl, rfl, h⟩
    · obtain ⟨before, b, after, s', rfl, hbefore, hb⟩ := ih h
      refine ⟨a :: before, b, after, s', rfl, ?_, hb⟩
      rw [List.foldlM_cons]
      exact bind_eq_ok.mpr ⟨s, hs, hbefore⟩

def Succeeds (o : Outcome α) : Prop := ∃ a, o = .ok a

theorem succeeds_ok (a : α) : Succeeds (.ok a) := ⟨a, rfl⟩

theorem not_succeeds_error (e : Failure) : ¬ Succeeds (.error e : Outcome α) := by
  rintro ⟨a, h⟩
  cases h

theorem succeeds_ite {b : Bool} {a : α} {e : Failure} :
    Succeeds (if b then .ok a else .error e : Outcome α) ↔ b = true := by
  cases b
  · exact iff_of_false (not_succeeds_error e) (by simp)
  · exact iff_of_true (succeeds_ok a) rfl

/-- A step after which the rest has a value or not, whatever value the step has. -/
theorem succeeds_bind {o : Outcome α} {f : α → Outcome β} {P : Prop}
    (hf : ∀ a, Succeeds (f a) ↔ P) : Succeeds (o >>= f) ↔ Succeeds o ∧ P := by
  cases o with
  | ok a =>
    rw [and_iff_right (succeeds_ok a)]
    exact hf a
  | error e =>
    have hfails : ¬ Succeeds ((.error e : Outcome α) >>= f) := not_succeeds_error e
    exact iff_of_false hfails fun h => not_succeeds_error e h.1

/-- A step after which nothing can fail. -/
theorem succeeds_bind_ok {o : Outcome α} {f : α → Outcome β} (hf : ∀ a, Succeeds (f a)) :
    Succeeds (o >>= f) ↔ Succeeds o :=
  (succeeds_bind fun a => iff_of_true (hf a) trivial).trans (and_iff_left trivial)

theorem succeeds_map {o : Outcome α} (f : α → β) : Succeeds (o.map f) ↔ Succeeds o := by
  cases o with
  | ok a => exact iff_of_true (succeeds_ok (f a)) (succeeds_ok a)
  | error e => exact iff_of_false (not_succeeds_error e) (not_succeeds_error e)

theorem succeeds_mapM {f : α → Outcome β} {items : List α} :
    Succeeds (items.mapM f) ↔ ∀ a ∈ items, Succeeds (f a) := by
  induction items with
  | nil => exact iff_of_true (succeeds_ok []) (by simp)
  | cons a rest ih =>
    rw [List.mapM_cons, List.forall_mem_cons]
    refine succeeds_bind fun b => ?_
    exact (succeeds_bind_ok fun bs => succeeds_ok (b :: bs)).trans ih

/-- A walk in which it depends on the item alone whether a step can be made. -/
theorem succeeds_foldlM {σ : Type} {f : σ → α → Outcome σ} {P : α → Prop} {items : List α}
    (hf : ∀ s, ∀ a ∈ items, Succeeds (f s a) ↔ P a) (start : σ) :
    Succeeds (items.foldlM f start) ↔ ∀ a ∈ items, P a := by
  induction items generalizing start with
  | nil => exact iff_of_true (succeeds_ok start) (by simp)
  | cons a rest ih =>
    rw [List.foldlM_cons, List.forall_mem_cons, ← hf start a List.mem_cons_self]
    exact succeeds_bind fun s => ih (fun s b hb => hf s b (List.mem_cons_of_mem _ hb)) s

/-- An outcome that is no failure of a kind. -/
def Avoids (kind : Failure → Bool) (o : Outcome α) : Prop := ∀ e, o = .error e → kind e = false

abbrev Plain (o : Outcome α) : Prop := o.Avoids Failure.isSigning

namespace Avoids

variable {kind : Failure → Bool}

theorem ok (a : α) : Avoids kind (.ok a) := by
  intro e h
  cases h

theorem pure (a : α) : Avoids kind (Pure.pure a : Outcome α) := ok a

theorem error {e : Failure} (he : kind e = false) : Avoids kind (.error e : Outcome α) := by
  intro e' h
  cases h
  exact he

theorem need {failure : Failure} (hf : kind failure = false) (value : Option α) :
    Avoids kind (ApiContract.need failure value) := by
  intro e h
  obtain ⟨-, rfl⟩ := need_eq_error.mp h
  exact hf

/-- A value that is there if its absence is excluded. -/
theorem need_some {failure : Failure} {value : Option α} (h : kind failure = true → value.isSome) :
    Avoids kind (ApiContract.need failure value) := by
  intro e he
  obtain ⟨rfl, rfl⟩ := need_eq_error.mp he
  exact Bool.eq_false_iff.mpr fun hk => nomatch h hk

theorem map {o : Outcome α} (h : Avoids kind o) (f : α → β) : Avoids kind (o.map f) := by
  intro e he
  exact h e (map_eq_error.mp he)

theorem bind {o : Outcome α} {f : α → Outcome β} (ho : Avoids kind o)
    (hf : ∀ a, Avoids kind (f a)) : Avoids kind (o >>= f) := by
  intro e h
  rcases bind_eq_error.mp h with h | ⟨a, -, h⟩
  · exact ho e h
  · exact hf a e h

theorem mapM {f : α → Outcome β} {items : List α} (hf : ∀ a ∈ items, Avoids kind (f a)) :
    Avoids kind (items.mapM f) := by
  induction items with
  | nil => exact pure _
  | cons a rest ih =>
    rw [List.mapM_cons]
    refine bind (hf a List.mem_cons_self) fun b => ?_
    exact bind (ih fun c hc => hf c (List.mem_cons_of_mem _ hc)) fun bs => pure _

theorem foldlM {f : β → α → Outcome β} {items : List α} (hf : ∀ s, ∀ a ∈ items, Avoids kind (f s a))
    (start : β) : Avoids kind (items.foldlM f start) := by
  induction items generalizing start with
  | nil => exact pure _
  | cons a rest ih =>
    rw [List.foldlM_cons]
    refine bind (hf start a List.mem_cons_self) fun s => ?_
    exact ih (fun s b hb => hf s b (List.mem_cons_of_mem _ hb)) s

end Avoids

end Outcome

theorem Scalar.plain_written (s : Scalar) : s.written.Plain := by
  unfold Scalar.written
  split
  · exact .ok _
  · exact .error rfl

theorem Tree.plain_written (t : Tree) : t.written.Plain := by
  unfold Tree.written
  split
  · exact .ok _
  · exact .error rfl

theorem Failure.isSigning_telling (values : List Tree) {failure : Failure}
    (h : failure.isSigning = false) : (Failure.telling values failure).isSigning = false := by
  unfold Failure.telling
  split
  · exact h
  · rfl

end ApiContract
