import ApiContract.Proofs.Outcome
import ApiContract.Run.Workspace

/-! # Outcomes of steps

A step ends with a value or a failure and leaves tables behind. What a composed step
does follows from its parts: when it succeeds every part succeeded, what every part
keeps the whole keeps, and a step whose parts read nothing but the tables ends the
same way from equal tables.
-/
namespace ApiContract

namespace Step

variable {α β : Type}

/-- The value or failure of a finished step, with the tables it leaves. -/
def outcome : EStateM.Result Failure Workspace α → Outcome α × TypeTables
  | .ok a w => (.ok a, w.tables)
  | .error e w => (.error e, w.tables)

@[simp] theorem outcome_ok (a : α) (w : Workspace) :
    outcome (.ok a w) = (.ok a, w.tables) := rfl

@[simp] theorem outcome_error (e : Failure) (w : Workspace) :
    outcome (.error e w : EStateM.Result Failure Workspace α) = (.error e, w.tables) := rfl

/-- A step that has something to tell of its value succeeded. -/
theorem exists_of_outcome {r : EStateM.Result Failure Workspace α} {f : α → β} {b : β}
    (h : (outcome r).1.toOption.map f = some b) : ∃ a w, r = .ok a w ∧ f a = b := by
  cases r with
  | ok a w => exact ⟨a, w, rfl, Option.some.inj h⟩
  | error e w => cases h

theorem bind_apply (x : Step α) (f : α → Step β) (w : Workspace) :
    (x >>= f) w = match x w with
      | .ok a v => f a v
      | .error e v => .error e v := by
  simp only [bind, EStateM.bind]
  cases x w <;> rfl

theorem bind_eq_ok {x : Step α} {f : α → Step β} {w w' : Workspace} {b : β} :
    (x >>= f) w = .ok b w' ↔ ∃ a v, x w = .ok a v ∧ f a v = .ok b w' := by
  rw [bind_apply]
  cases x w <;> simp

theorem bind_eq_error {x : Step α} {f : α → Step β} {w w' : Workspace} {e : Failure} :
    (x >>= f) w = .error e w' ↔
      x w = .error e w' ∨ ∃ a v, x w = .ok a v ∧ f a v = .error e w' := by
  rw [bind_apply]
  cases x w <;> simp

@[simp] theorem pure_apply (a : α) (w : Workspace) : (pure a : Step α) w = .ok a w := rfl

@[simp] theorem tables_apply (w : Workspace) : tables w = .ok w.tables w := rfl

@[simp] theorem modifyTables_apply (f : TypeTables → TypeTables) (w : Workspace) :
    modifyTables f w = .ok () { w with tables := f w.tables } := rfl

@[simp] theorem record_apply (event : Event) (w : Workspace) :
    record event w = .ok () { w with log := w.log.push event } := rfl

@[simp] theorem fail_apply (e : Failure) (w : Workspace) :
    (fail e : Step α) w = .error e w := rfl

theorem lift_eq_ok {o : Outcome α} {a : α} {w w' : Workspace} :
    lift o w = .ok a w' ↔ o = .ok a ∧ w = w' := by
  cases o <;> simp [lift]

theorem lift_eq_error {o : Outcome α} {e : Failure} {w w' : Workspace} :
    lift o w = .error e w' ↔ o = .error e ∧ w = w' := by
  cases o <;> simp [lift]

theorem attempt_eq_ok {step : Step α} {r : Except Fault α} {w w' : Workspace} :
    attempt step w = .ok r w' ↔
      (∃ a, step w = .ok a w' ∧ r = .ok a) ∨
        ∃ f l, step w = .error (.schema f l) w' ∧ r = .error ⟨f, l⟩ := by
  unfold attempt
  cases step w with
  | ok a v =>
    constructor
    · rintro ⟨⟩
      exact Or.inl ⟨a, rfl, rfl⟩
    · rintro (⟨_, ⟨⟩, rfl⟩ | ⟨_, _, h, _⟩)
      · rfl
      · cases h
  | error e v => cases e <;> simp [eq_comm, and_comm, and_assoc]

theorem attempt_eq_error {step : Step α} {e : Failure} {w w' : Workspace}
    (h : attempt step w = .error e w') :
    step w = .error e w' ∧ ∀ f l, e ≠ .schema f l := by
  unfold attempt at h
  cases hs : step w with
  | ok a v => simp [hs] at h
  | error e v => cases e <;> simp [hs] at h <;> (obtain ⟨rfl, rfl⟩ := h; simp)

theorem afterwards_eq_error {step : Step α} {f : TypeTables → TypeTables} {e : Failure}
    {w w' : Workspace} :
    afterwards step f w = .error e w' ↔
      ∃ v, step w = .error e v ∧ w' = { v with tables := f v.tables } := by
  unfold afterwards
  cases step w <;> simp [eq_comm, and_comm]

theorem foldlM_keeps {f : β → α → Step β} {items : List α} {start final : β} {w w' : Workspace}
    {P : β → Workspace → Prop}
    (hf : ∀ s v, P s v → ∀ a ∈ items, ∀ s' v', f s a v = .ok s' v' → P s' v') (hs : P start w)
    (h : items.foldlM f start w = .ok final w') : P final w' := by
  induction items generalizing start w with
  | nil =>
    cases h
    exact hs
  | cons a rest ih =>
    rw [List.foldlM_cons] at h
    obtain ⟨s, v, hfs, h⟩ := bind_eq_ok.mp h
    exact ih (fun s v hs b hb => hf s v hs b (List.mem_cons_of_mem _ hb))
      (hf start w hs a List.mem_cons_self s v hfs) h

theorem forall₂_of_mapM {f : α → Step β} {items : List α} {values : List β} {w w' : Workspace}
    (h : items.mapM f w = .ok values w') :
    List.Forall₂ (fun a b => ∃ v v', f a v = .ok b v') items values := by
  induction items generalizing values w with
  | nil =>
    cases h
    exact .nil
  | cons a rest ih =>
    rw [List.mapM_cons] at h
    obtain ⟨b, v, hb, h⟩ := bind_eq_ok.mp h
    obtain ⟨bs, u, hbs, h⟩ := bind_eq_ok.mp h
    cases h
    exact .cons ⟨w, v, hb⟩ (ih hbs)

/-- A property that the basic steps have and that a composed step has with its parts. No
such step fails over the signatures; those that do are looked at one by one. -/
structure Compositional (P : ∀ α : Type, Step α → Prop) : Prop where
  pure {α : Type} (a : α) : P α (Pure.pure a)
  lift {α : Type} {o : Outcome α} (ho : o.Plain) : P α (Step.lift o)
  fail {α : Type} {e : Failure} (he : e.isSigning = false) : P α (Step.fail e)
  record (event : Event) : P Unit (Step.record event)
  bind {α β : Type} {x : Step α} {f : α → Step β} (hx : P α x) (hf : ∀ a, P β (f a)) :
    P β (x >>= f)

namespace Compositional

variable {P : ∀ α : Type, Step α → Prop}

theorem map (hP : Compositional P) {x : Step α} (hx : P α x) (f : α → β) :
    P β (x >>= fun a => Pure.pure (f a)) :=
  hP.bind hx fun a => hP.pure (f a)

theorem mapM (hP : Compositional P) {f : α → Step β} {items : List α}
    (hf : ∀ a ∈ items, P β (f a)) : P (List β) (items.mapM f) := by
  induction items with
  | nil => exact hP.pure _
  | cons a rest ih =>
    rw [List.mapM_cons]
    refine hP.bind (hf a List.mem_cons_self) fun b => ?_
    exact hP.map (ih fun c hc => hf c (List.mem_cons_of_mem _ hc)) _

theorem foldlM (hP : Compositional P) {f : β → α → Step β} {items : List α}
    (hf : ∀ s, ∀ a ∈ items, P β (f s a)) (start : β) : P β (items.foldlM f start) := by
  induction items generalizing start with
  | nil => exact hP.pure _
  | cons a rest ih =>
    rw [List.foldlM_cons]
    refine hP.bind (hf start a List.mem_cons_self) fun s => ?_
    exact ih (fun s b hb => hf s b (List.mem_cons_of_mem _ hb)) s

end Compositional

/-- A property that a step has whatever it does with the tables. -/
structure Uniform (P : ∀ α : Type, Step α → Prop) : Prop extends Compositional P where
  tables : P TypeTables Step.tables
  modifyTables (f : TypeTables → TypeTables) : P Unit (Step.modifyTables f)
  attempt {α : Type} {x : Step α} (hx : P α x) : P (Except Fault α) (Step.attempt x)
  afterwards {α : Type} {x : Step α} (hx : P α x) (f : TypeTables → TypeTables) :
    P α (Step.afterwards x f)

/-- However the step ends, the tables before and after it are related. -/
def Keeps (R : TypeTables → TypeTables → Prop) (step : Step α) : Prop :=
  ∀ w, R w.tables (outcome (step w)).2

namespace Keeps

variable {R : TypeTables → TypeTables → Prop} {step : Step α}

theorem of_ok (h : Keeps R step) {w w' : Workspace} {a : α} (hs : step w = .ok a w') :
    R w.tables w'.tables := by
  simpa [hs] using h w

theorem of_error (h : Keeps R step) {w w' : Workspace} {e : Failure}
    (hs : step w = .error e w') : R w.tables w'.tables := by
  simpa [hs] using h w

theorem modifyTables {f : TypeTables → TypeTables} (h : ∀ t, R t (f t)) :
    Keeps R (Step.modifyTables f) := fun w => h w.tables

section Reflexive
variable [Std.Refl R]

theorem pure (a : α) : Keeps R (Pure.pure a : Step α) := fun w => Std.Refl.refl w.tables

theorem tables : Keeps R Step.tables := fun w => Std.Refl.refl w.tables

theorem record (event : Event) : Keeps R (Step.record event) := fun w => Std.Refl.refl w.tables

theorem fail (e : Failure) : Keeps R (Step.fail e : Step α) := fun w => Std.Refl.refl w.tables

theorem lift (o : Outcome α) : Keeps R (Step.lift o) := by
  intro w
  cases o <;> exact Std.Refl.refl w.tables

end Reflexive

theorem map (h : Keeps R step) (f : α → β) : Keeps R (step >>= fun a => Pure.pure (f a)) := by
  intro w
  have hw := h w
  rw [bind_apply]
  cases hs : step w <;> simpa [hs] using hw

section Transitive
variable [IsTrans TypeTables R]

theorem bind {f : α → Step β} (hx : Keeps R step) (hf : ∀ a, Keeps R (f a)) :
    Keeps R (step >>= f) := by
  intro w
  rw [bind_apply]
  cases hs : step w with
  | ok a v => exact IsTrans.trans _ _ _ (hx.of_ok hs) (hf a v)
  | error e v => exact hx.of_error hs

theorem compositional [Std.Refl R] : Compositional fun _ step => Keeps R step where
  pure := pure
  lift := fun _ => lift _
  fail := fun _ => fail _
  record := record
  bind := bind

end Transitive

end Keeps

/-- From equal tables the step ends the same way, whatever else the workspaces hold. -/
def ReadsTables (step : Step α) : Prop :=
  ∀ v w : Workspace, v.tables = w.tables → outcome (step v) = outcome (step w)

namespace ReadsTables

variable {step : Step α}

theorem of_ok (h : ReadsTables step) {v w v' : Workspace} {a : α} (ht : v.tables = w.tables)
    (hs : step v = .ok a v') : ∃ w', step w = .ok a w' ∧ w'.tables = v'.tables := by
  have hw := h v w ht
  rw [hs] at hw
  cases hsw : step w with
  | ok b w' =>
    rw [hsw] at hw
    obtain ⟨⟨⟩, hv⟩ := Prod.mk.inj hw
    exact ⟨w', rfl, hv.symm⟩
  | error e w' => simp [hsw] at hw

theorem pure (a : α) : ReadsTables (Pure.pure a : Step α) := by
  intro v w h
  simp [h]

theorem tables : ReadsTables Step.tables := by
  intro v w h
  simp [h]

theorem modifyTables (f : TypeTables → TypeTables) : ReadsTables (Step.modifyTables f) := by
  intro v w h
  simp [h]

theorem record (event : Event) : ReadsTables (Step.record event) := by
  intro v w h
  simp [h]

theorem fail (e : Failure) : ReadsTables (Step.fail e : Step α) := by
  intro v w h
  simp [h]

theorem lift (o : Outcome α) : ReadsTables (Step.lift o) := by
  intro v w h
  cases o <;> simp [Step.lift, h]

theorem bind {f : α → Step β} (hx : ReadsTables step) (hf : ∀ a, ReadsTables (f a)) :
    ReadsTables (step >>= f) := by
  intro v w h
  have hvw := hx v w h
  rw [bind_apply, bind_apply]
  cases hv : step v with
  | ok a v' =>
    obtain ⟨w', hw, ht⟩ := hx.of_ok h hv
    rw [hw]
    exact hf a v' w' ht.symm
  | error e v' =>
    rw [hv] at hvw
    cases hw : step w with
    | ok a w' => simp [hw] at hvw
    | error e' w' => simpa [hw] using hvw

theorem attempt (hx : ReadsTables step) : ReadsTables (Step.attempt step) := by
  intro v w h
  have hvw := hx v w h
  unfold Step.attempt
  cases hv : step v with
  | ok a v' =>
    obtain ⟨w', hw, ht⟩ := hx.of_ok h hv
    simp [hw, ht]
  | error e v' =>
    rw [hv] at hvw
    cases hw : step w with
    | ok a w' => simp [hw] at hvw
    | error e' w' =>
      simp only [hw, outcome_error, Prod.mk.injEq, Except.error.injEq] at hvw
      obtain ⟨rfl, ht⟩ := hvw
      cases e <;> simp [ht]

theorem afterwards (hx : ReadsTables step) (f : TypeTables → TypeTables) :
    ReadsTables (Step.afterwards step f) := by
  intro v w h
  have hvw := hx v w h
  unfold Step.afterwards
  cases hv : step v <;> cases hw : step w <;> simp [hv, hw] at hvw ⊢ <;> simp [hvw]

theorem uniform : Uniform fun _ step => ReadsTables step where
  pure := pure
  lift := fun _ => lift _
  fail := fun _ => fail _
  record := record
  bind := bind
  tables := tables
  modifyTables := modifyTables
  attempt := attempt
  afterwards := afterwards

end ReadsTables

/-- However the step ends, the signatures are those before it. -/
def KeepsSignatures (step : Step α) : Prop :=
  ∀ w, match step w with
    | .ok _ w' => w'.signatures = w.signatures
    | .error _ w' => w'.signatures = w.signatures

namespace KeepsSignatures

variable {step : Step α}

theorem of_ok (h : KeepsSignatures step) {w w' : Workspace} {a : α} (hs : step w = .ok a w') :
    w'.signatures = w.signatures := by
  simpa [hs] using h w

theorem of_error (h : KeepsSignatures step) {w w' : Workspace} {e : Failure}
    (hs : step w = .error e w') : w'.signatures = w.signatures := by
  simpa [hs] using h w

theorem lift (o : Outcome α) : KeepsSignatures (Step.lift o) := by
  intro w
  cases o <;> rfl

theorem bind {f : α → Step β} (hx : KeepsSignatures step) (hf : ∀ a, KeepsSignatures (f a)) :
    KeepsSignatures (step >>= f) := by
  intro w
  rw [bind_apply]
  cases hs : step w with
  | ok a v =>
    have hv := hx.of_ok hs
    simp only
    cases hfs : f a v with
    | ok b u => exact ((hf a).of_ok hfs).trans hv
    | error e u => exact ((hf a).of_error hfs).trans hv
  | error e v => exact hx.of_error hs

theorem attempt (hx : KeepsSignatures step) : KeepsSignatures (Step.attempt step) := by
  intro w
  unfold Step.attempt
  cases hs : step w with
  | ok a v => exact hx.of_ok hs
  | error e v =>
    have hv := hx.of_error hs
    cases e <;> exact hv

theorem afterwards (hx : KeepsSignatures step) (f : TypeTables → TypeTables) :
    KeepsSignatures (Step.afterwards step f) := by
  intro w
  have hw := hx w
  unfold Step.afterwards
  cases hs : step w with
  | ok a v => simpa [hs] using hw
  | error e v => simpa [hs] using hw

theorem uniform : Uniform fun _ step => KeepsSignatures step where
  pure := fun _ _ => rfl
  lift := fun _ => lift _
  fail := fun _ _ => rfl
  record := fun _ _ => rfl
  bind := bind
  tables := fun _ => rfl
  modifyTables := fun _ _ => rfl
  attempt := attempt
  afterwards := afterwards

end KeepsSignatures

/-- From a workspace the step does not end in a failure of a kind. -/
def Avoids (kind : Failure → Bool) (step : Step α) (w : Workspace) : Prop :=
  ∀ e w', step w = .error e w' → kind e = false

namespace Avoids

variable {kind : Failure → Bool} {w : Workspace}

theorem of_ok {step : Step α} {a : α} {w' : Workspace} (h : step w = .ok a w') :
    Avoids kind step w := by
  intro e v he
  cases h.symm.trans he

theorem pure (a : α) : Avoids kind (Pure.pure a : Step α) w := of_ok rfl

theorem lift {o : Outcome α} (h : o.Avoids kind) : Avoids kind (Step.lift o) w := by
  intro e w' he
  exact h e (lift_eq_error.mp he).1

theorem fail {e : Failure} (he : kind e = false) : Avoids kind (Step.fail e : Step α) w := by
  intro e' w' h
  cases h
  exact he

theorem bind {x : Step α} {f : α → Step β} (hx : Avoids kind x w)
    (hf : ∀ a v, x w = .ok a v → Avoids kind (f a) v) : Avoids kind (x >>= f) w := by
  intro e w' h
  rcases bind_eq_error.mp h with h | ⟨a, v, ha, h⟩
  · exact hx e w' h
  · exact hf a v ha e w' h

theorem map {x : Step α} (hx : Avoids kind x w) (f : α → β) :
    Avoids kind (x >>= fun a => Pure.pure (f a)) w :=
  hx.bind fun a _ _ => pure (f a)

theorem attempt {x : Step α} (hx : Avoids kind x w) : Avoids kind (Step.attempt x) w := by
  intro e w' h
  exact hx e w' (attempt_eq_error h).1

theorem afterwards {x : Step α} (hx : Avoids kind x w) (f : TypeTables → TypeTables) :
    Avoids kind (Step.afterwards x f) w := by
  intro e w' h
  obtain ⟨v, hv, -⟩ := afterwards_eq_error.mp h
  exact hx e v hv

end Avoids

/-- A step that never fails over the signatures. -/
def Plain (step : Step α) : Prop := ∀ w, Avoids Failure.isSigning step w

theorem Plain.uniform : Uniform fun _ step => Plain step where
  pure := fun a _ => .pure a
  lift := fun ho _ => .lift ho
  fail := fun he _ => .fail he
  record := fun _ _ => .of_ok rfl
  bind := fun hx hf w => (hx w).bind fun a v _ => hf a v
  tables := fun _ => .of_ok rfl
  modifyTables := fun _ _ => .of_ok rfl
  attempt := fun hx w => (hx w).attempt
  afterwards := fun hx f w => (hx w).afterwards f

end Step

end ApiContract
