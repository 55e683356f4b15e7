import ApiContract.Proofs.Step

/-! # What outcomes and steps yield

An outcome yields a property when its value has it, and when it is no failure of a kind in
case it is one. A step does so from tables with an invariant, and it leaves tables with the
invariant however it ends.
-/
namespace ApiContract

variable {α β : Type} {kind : Failure → Bool}

namespace Outcome

/-- A value with the property, or a failure that is not of the kind. -/
def Yields (kind : Failure → Bool) (P : α → Prop) (o : Outcome α) : Prop :=
  match o with
  | .ok a => P a
  | .error e => kind e = false

namespace Yields

variable {P : α → Prop} {Q : β → Prop} {o : Outcome α}

theorem ok {a : α} (ha : P a) : Yields kind P (.ok a) := ha

theorem pure {a : α} (ha : P a) : Yields kind P (Pure.pure a) := ha

theorem error {e : Failure} (he : kind e = false) : Yields kind P (.error e) := he

theorem avoids (h : o.Yields kind P) : o.Avoids kind := by
  rintro e rfl
  exact h

theorem of_avoids (h : o.Avoids kind) : o.Yields kind fun _ => True := by
  cases o with
  | ok a => trivial
  | error e => exact h e rfl

theorem any (o : Outcome α) : o.Yields (fun _ => false) fun _ => True := of_avoids fun _ _ => rfl

theorem weaken {P' : α → Prop} (h : o.Yields kind P) (hP : ∀ a, P a → P' a) : o.Yields kind P' := by
  cases o with
  | ok a => exact hP a h
  | error e => exact h

theorem need {failure : Failure} {value : Option α} (h : value = none → kind failure = false) :
    Yields kind (fun a => value = some a) (ApiContract.need failure value) := by
  cases value with
  | none => exact h rfl
  | some a => rfl

theorem bind {f : α → Outcome β} (ho : o.Yields kind P) (hf : ∀ a, P a → (f a).Yields kind Q) :
    (o >>= f).Yields kind Q := by
  cases o with
  | ok a => exact hf a ho
  | error e => exact ho

theorem foldlM {f : β → α → Outcome β} {items : List α} {start : β}
    (hf : ∀ s, Q s → ∀ a ∈ items, (f s a).Yields kind Q) (hs : Q start) :
    (items.foldlM f start).Yields kind Q := by
  induction items generalizing start with
  | nil => exact hs
  | cons a rest ih =>
    rw [List.foldlM_cons]
    refine bind (hf start hs a List.mem_cons_self) fun s hs => ?_
    exact ih (fun s hs b hb => hf s hs b (List.mem_cons_of_mem _ hb)) hs

end Yields

end Outcome

namespace Step

/-- From tables with the invariant the step ends with a value that has the property, or with
a failure that is not of the kind, and the tables still have the invariant. -/
def Yields (I : TypeTables → Prop) (kind : Failure → Bool) (P : α → Prop) (step : Step α) : Prop :=
  ∀ w, I w.tables → (outcome (step w)).1.Yields kind P ∧ I (outcome (step w)).2

/-- A step that yields nothing in particular. -/
abbrev Guards (I : TypeTables → Prop) (kind : Failure → Bool) (step : Step α) : Prop :=
  Yields I kind (fun _ => True) step

namespace Yields

variable {I : TypeTables → Prop} {P : α → Prop} {Q : β → Prop} {step : Step α}

theorem avoids (h : Yields I kind P step) {w : Workspace} (hw : I w.tables) :
    Avoids kind step w := by
  intro e w' he
  have hstep := (h w hw).1
  rw [he] at hstep
  exact hstep

theorem pure {a : α} (ha : P a) : Yields I kind P (Pure.pure a) := fun _ hw => ⟨ha, hw⟩

theorem fail {e : Failure} (he : kind e = false) : Yields I kind P (Step.fail e) :=
  fun _ hw => ⟨he, hw⟩

theorem lift {o : Outcome α} (h : o.Yields kind P) : Yields I kind P (Step.lift o) := by
  intro w hw
  cases o with
  | ok a => exact ⟨h, hw⟩
  | error e => exact ⟨h, hw⟩

theorem lift_any (o : Outcome α) : Guards I (fun _ => false) (Step.lift o) := lift (.any o)

theorem record (event : Event) : Guards I kind (Step.record event) := fun _ hw => ⟨trivial, hw⟩

theorem tables : Yields I kind I Step.tables := fun _ hw => ⟨hw, hw⟩

theorem modifyTables {f : TypeTables → TypeTables} (hf : ∀ t, I t → I (f t)) :
    Guards I kind (Step.modifyTables f) := fun w hw => ⟨trivial, hf w.tables hw⟩

theorem bind {f : α → Step β} (hx : Yields I kind P step) (hf : ∀ a, P a → Yields I kind Q (f a)) :
    Yields I kind Q (step >>= f) := by
  intro w hw
  have hstep := hx w hw
  rw [bind_apply]
  cases hs : step w with
  | ok a v =>
    rw [hs] at hstep
    exact hf a hstep.1 v hstep.2
  | error e v =>
    rw [hs] at hstep
    exact hstep

theorem map {f : α → β} (hx : Yields I kind P step) :
    Guards I kind (step >>= fun a => Pure.pure (f a)) :=
  hx.bind fun _ _ => pure trivial

/-- Where no kind of failure is excluded, composed steps guard the invariant with their parts. -/
theorem compositional : Compositional fun _ step => Guards I (fun _ => false) step where
  pure := fun _ => pure trivial
  lift := fun _ => lift_any _
  fail := fun _ => fail rfl
  record := record
  bind := fun hx hf => hx.bind fun a _ => hf a

theorem weaken {P' : α → Prop} (hx : Yields I kind P step) (h : ∀ a, P a → P' a) :
    Yields I kind P' step := by
  intro w hw
  obtain ⟨hstep, htables⟩ := hx w hw
  refine ⟨?_, htables⟩
  cases hs : step w with
  | ok a v =>
    rw [hs] at hstep
    exact h a hstep
  | error e v =>
    rw [hs] at hstep
    exact hstep

/-- A value that a step gives is one that it ended with. -/
theorem ran (hx : Guards I kind step) :
    Yields I kind (fun a => ∃ w w', step w = .ok a w') step := by
  intro w hw
  obtain ⟨hstep, htables⟩ := hx w hw
  refine ⟨?_, htables⟩
  cases hs : step w with
  | ok a v => exact ⟨w, v, hs⟩
  | error e v =>
    rw [hs] at hstep
    exact hstep

/-- An attempt that succeeds has a value with the property. -/
theorem attempt_all (hx : Yields I kind P step) :
    Yields I kind (fun result => ∀ a, result = .ok a → P a) (Step.attempt step) := by
  intro w hw
  have hstep := hx w hw
  unfold Step.attempt
  cases hs : step w with
  | ok a v =>
    rw [hs] at hstep
    exact ⟨fun b hb => Except.ok.inj hb ▸ hstep.1, hstep.2⟩
  | error e v =>
    rw [hs] at hstep
    cases e with
    | schema fault location => exact ⟨fun _ he => (nomatch he), hstep.2⟩
    | _ => exact ⟨hstep.1, hstep.2⟩

theorem attempt (hx : Yields I kind P step) : Guards I kind (Step.attempt step) :=
  weaken (attempt_all hx) fun _ _ => trivial

theorem afterwards {f : TypeTables → TypeTables} (hx : Yields I kind P step)
    (hf : ∀ t, I t → I (f t)) : Yields I kind P (Step.afterwards step f) := by
  intro w hw
  have hstep := hx w hw
  unfold Step.afterwards
  cases hs : step w with
  | ok a v =>
    rw [hs] at hstep
    exact ⟨hstep.1, hf _ hstep.2⟩
  | error e v =>
    rw [hs] at hstep
    exact ⟨hstep.1, hf _ hstep.2⟩

/-- Every value of a row has the property that each step gives its value. -/
theorem mapM_all {f : α → Step β} {items : List α} (hf : ∀ a ∈ items, Yields I kind Q (f a)) :
    Yields I kind (fun bs => ∀ b ∈ bs, Q b) (items.mapM f) := by
  induction items with
  | nil => exact pure (by simp)
  | cons a rest ih =>
    rw [List.mapM_cons]
    refine bind (hf a List.mem_cons_self) fun b hb => ?_
    refine bind (ih fun c hc => hf c (List.mem_cons_of_mem _ hc)) fun bs hbs => ?_
    exact pure (List.forall_mem_cons.mpr ⟨hb, hbs⟩)

theorem mapM {f : α → Step β} {items : List α} (hf : ∀ a ∈ items, Guards I kind (f a)) :
    Guards I kind (items.mapM f) :=
  weaken (mapM_all hf) fun _ _ => trivial

/-- A property of the state that each step of a fold keeps. -/
theorem foldlM_all {f : β → α → Step β} {items : List α} {start : β}
    (hf : ∀ s, Q s → ∀ a ∈ items, Yields I kind Q (f s a)) (hs : Q start) :
    Yields I kind Q (items.foldlM f start) := by
  induction items generalizing start with
  | nil => exact pure hs
  | cons a rest ih =>
    rw [List.foldlM_cons]
    refine bind (hf start hs a List.mem_cons_self) fun s hs => ?_
    exact ih (fun s hs b hb => hf s hs b (List.mem_cons_of_mem _ hb)) hs

theorem foldlM {f : β → α → Step β} {items : List α}
    (hf : ∀ s, ∀ a ∈ items, Guards I kind (f s a)) (start : β) :
    Guards I kind (items.foldlM f start) :=
  foldlM_all (fun s _ => hf s) trivial

end Yields

/-- A property of steps and of the values they give. A composed step has it when its later
parts have it for the values that the earlier ones give. -/
structure Threaded (kind : Failure → Bool) (P : ∀ α : Type, (α → Prop) → Step α → Prop) :
    Prop where
  pure {α : Type} {Q : α → Prop} {a : α} (ha : Q a) : P α Q (Pure.pure a)
  lift {α : Type} {Q : α → Prop} {o : Outcome α} (ho : o.Yields kind Q) : P α Q (Step.lift o)
  fail {α : Type} {Q : α → Prop} {e : Failure} (he : kind e = false) : P α Q (Step.fail e)
  record (event : Event) : P Unit (fun _ => True) (Step.record event)
  bind {α β : Type} {Q : α → Prop} {R : β → Prop} {x : Step α} {f : α → Step β} (hx : P α Q x)
    (hf : ∀ a, Q a → P β R (f a)) : P β R (x >>= f)

theorem Yields.threaded {I : TypeTables → Prop} :
    Threaded kind fun _ Q step => Yields I kind Q step where
  pure := .pure
  lift := .lift
  fail := .fail
  record := .record
  bind := .bind

namespace Threaded

variable {P : ∀ α : Type, (α → Prop) → Step α → Prop}

theorem map (hP : Threaded kind P) {Q : α → Prop} {x : Step α} (hx : P α Q x) (f : α → β) :
    P β (fun _ => True) (x >>= fun a => Pure.pure (f a)) :=
  hP.bind hx fun _ _ => hP.pure trivial

theorem foldlM (hP : Threaded kind P) {f : β → α → Step β} {items : List α}
    (hf : ∀ s, ∀ a ∈ items, P β (fun _ => True) (f s a)) (start : β) :
    P β (fun _ => True) (items.foldlM f start) := by
  induction items generalizing start with
  | nil => exact hP.pure trivial
  | cons a rest ih =>
    rw [List.foldlM_cons]
    refine hP.bind (hf start a List.mem_cons_self) fun s _ => ?_
    exact ih (fun s b hb => hf s b (List.mem_cons_of_mem _ hb)) s

end Threaded

end Step

end ApiContract
