import ApiContract.Proofs.Outcome

/-! # Outcomes that follow others

An outcome follows another when it has a value for each value of that one, in a relation to
it. Of a failure nothing is asked. Steps that follow step by step follow as a whole. Two
outcomes agree when both have values in the relation or both fail in the same way, and steps
that agree step by step agree as a whole as well.
-/
namespace ApiContract.Outcome

variable {α β γ δ : Type}

/-- Where the first outcome has a value, the second has one in the relation to it. -/
def Refines (R : α → β → Prop) (o : Outcome α) (o' : Outcome β) : Prop :=
  ∀ a, o = .ok a → ∃ b, o' = .ok b ∧ R a b

namespace Refines

variable {R : α → β → Prop} {S : γ → δ → Prop} {o : Outcome α} {o' : Outcome β}

theorem ok {a : α} {b : β} (h : R a b) : Refines R (.ok a) (.ok b) := by
  rintro _ ⟨⟩
  exact ⟨b, rfl, h⟩

theorem pure {a : α} {b : β} (h : R a b) : Refines R (Pure.pure a) (Pure.pure b) := ok h

theorem error {e : Failure} : Refines R (.error e) o' := nofun

theorem same (o : Outcome α) : Refines Eq o o := fun a h => ⟨a, h, rfl⟩

theorem need {failure failure' : Failure} {value : Option α} {value' : Option β}
    (h : ∀ a, value = some a → ∃ b, value' = some b ∧ R a b) :
    Refines R (ApiContract.need failure value) (ApiContract.need failure' value') := by
  intro a ha
  obtain ⟨b, hb, hR⟩ := h a (need_eq_ok.mp ha)
  exact ⟨b, need_eq_ok.mpr hb, hR⟩

theorem bind {f : α → Outcome γ} {g : β → Outcome δ} (ho : Refines R o o')
    (hf : ∀ a b, o = .ok a → R a b → Refines S (f a) (g b)) : Refines S (o >>= f) (o' >>= g) := by
  intro c hc
  obtain ⟨a, ha, hc⟩ := bind_eq_ok.mp hc
  obtain ⟨b, hb, hR⟩ := ho a ha
  obtain ⟨d, hd, hS⟩ := hf a b ha hR c hc
  exact ⟨d, bind_eq_ok.mpr ⟨b, hb, hd⟩, hS⟩

/-- A step that both take. -/
theorem bind_same {f : α → Outcome γ} {g : α → Outcome δ}
    (hf : ∀ a, o = .ok a → Refines S (f a) (g a)) : Refines S (o >>= f) (o >>= g) :=
  bind (same o) fun a _ ha he => he ▸ hf a ha

theorem map {f : α → γ} {g : β → δ} (ho : Refines R o o') (hf : ∀ a b, R a b → S (f a) (g b)) :
    Refines S (o.map f) (o'.map g) := by
  intro c hc
  obtain ⟨a, ha, rfl⟩ := map_eq_ok.mp hc
  obtain ⟨b, hb, hR⟩ := ho a ha
  exact ⟨g b, map_eq_ok.mpr ⟨b, hb, rfl⟩, hf a b hR⟩

theorem mapM {P : α → β → Prop} {f : α → Outcome γ} {g : β → Outcome δ} {items : List α}
    {items' : List β} (h : List.Forall₂ P items items')
    (hf : ∀ a ∈ items, ∀ b, P a b → Refines S (f a) (g b)) :
    Refines (List.Forall₂ S) (items.mapM f) (items'.mapM g) := by
  induction h with
  | nil => exact ok .nil
  | @cons a b rest rest' hab _ ih =>
    rw [List.mapM_cons, List.mapM_cons]
    refine bind (hf a List.mem_cons_self b hab) fun c d _ hcd => ?_
    refine bind (ih fun x hx => hf x (List.mem_cons_of_mem _ hx)) fun cs ds _ hall => ?_
    exact pure (.cons hcd hall)

theorem foldlM {P : α → β → Prop} {f : γ → α → Outcome γ} {g : δ → β → Outcome δ}
    {items : List α} {items' : List β} (h : List.Forall₂ P items items')
    (hf : ∀ a ∈ items, ∀ b, P a b → ∀ s t, S s t → Refines S (f s a) (g t b)) {s : γ} {t : δ}
    (hs : S s t) : Refines S (items.foldlM f s) (items'.foldlM g t) := by
  induction h generalizing s t with
  | nil => exact ok hs
  | @cons a b rest rest' hab _ ih =>
    rw [List.foldlM_cons, List.foldlM_cons]
    refine bind (hf a List.mem_cons_self b hab s t hs) fun s' t' _ hs' => ?_
    exact ih (fun x hx => hf x (List.mem_cons_of_mem _ hx)) hs'

/-- Steps over items that are rewritten before. -/
theorem mapM_map {h : α → β} {f : α → Outcome γ} {g : β → Outcome δ} {items : List α}
    (hf : ∀ a ∈ items, Refines S (f a) (g (h a))) :
    Refines (List.Forall₂ S) (items.mapM f) ((items.map h).mapM g) := by
  have hitems : List.Forall₂ (fun a b => b = h a) items (items.map h) :=
    List.forall₂_map_right_iff.mpr (List.forall₂_same.mpr fun _ _ => rfl)
  exact mapM hitems fun a ha b hb => hb ▸ hf a ha

theorem foldlM_map {h : α → β} {f : γ → α → Outcome γ} {g : δ → β → Outcome δ} {items : List α}
    (hf : ∀ a ∈ items, ∀ s t, S s t → Refines S (f s a) (g t (h a))) {s : γ} {t : δ}
    (hs : S s t) : Refines S (items.foldlM f s) ((items.map h).foldlM g t) := by
  have hitems : List.Forall₂ (fun a b => b = h a) items (items.map h) :=
    List.forall₂_map_right_iff.mpr (List.forall₂_same.mpr fun _ _ => rfl)
  exact foldlM hitems (fun a ha b hb => hb ▸ hf a ha) hs

end Refines

/-- Lists are the same in a view when their items are, one by one. -/
theorem map_eq_of_forall₂ {f : α → γ} {g : β → γ} {items : List α} {items' : List β}
    (h : List.Forall₂ (fun a b => g b = f a) items items') : items'.map g = items.map f := by
  induction h with
  | nil => rfl
  | cons hab _ ih => rw [List.map_cons, List.map_cons, hab, ih]

/-- Steps that each have a value have one as a whole. -/
theorem exists_mapM {R : α → β → Prop} {f : α → Outcome β} {items : List α}
    (h : ∀ a ∈ items, ∃ b, f a = .ok b ∧ R a b) :
    ∃ values, items.mapM f = .ok values ∧ List.Forall₂ R items values := by
  have hitems : List.Forall₂ (fun a a' => a' = a) items items :=
    List.forall₂_same.mpr fun _ _ => rfl
  have hpure : items.mapM (fun a => (Pure.pure a : Outcome α)) = .ok items := by
    rw [List.mapM_pure]
    simp [Pure.pure, Except.pure]
  refine Refines.mapM (S := R) hitems (fun a ha a' he => ?_) items hpure
  rintro _ ⟨⟩
  obtain ⟨b, hb, hR⟩ := h a ha
  exact ⟨b, he ▸ hb, hR⟩

/-- Both outcomes have values in the relation, or both fail in the same way. -/
inductive Agrees (R : α → β → Prop) : Outcome α → Outcome β → Prop
  | ok {a : α} {b : β} (h : R a b) : Agrees R (.ok a) (.ok b)
  | error (e : Failure) : Agrees R (.error e) (.error e)

/-- Two rows of values for one row of items, in a relation item by item. -/
inductive Rows (P : α → γ → δ → Prop) : List α → List γ → List δ → Prop
  | nil : Rows P [] [] []
  | cons {a : α} {c : γ} {d : δ} {as : List α} {cs : List γ} {ds : List δ} (first : P a c d)
      (rest : Rows P as cs ds) : Rows P (a :: as) (c :: cs) (d :: ds)

theorem Rows.map {γ' δ' : Type} {P : α → γ → δ → Prop} {Q : α → γ' → δ' → Prop} {k : γ → γ'}
    {l : δ → δ'} (hPQ : ∀ a c d, P a c d → Q a (k c) (l d)) {as : List α} {cs : List γ}
    {ds : List δ} (h : Rows P as cs ds) : Rows Q as (cs.map k) (ds.map l) := by
  induction h with
  | nil => exact .nil
  | cons first _ ih => exact .cons (hPQ _ _ _ first) ih

theorem Rows.map_eq {ε : Type} {k : γ → ε} {l : δ → ε} {as : List α} {cs : List γ} {ds : List δ}
    (h : Rows (fun _ c d => k c = l d) as cs ds) : cs.map k = ds.map l := by
  induction h with
  | nil => rfl
  | cons first _ ih => rw [List.map_cons, List.map_cons, first, ih]

namespace Agrees

variable {R : α → β → Prop} {S : γ → δ → Prop} {o : Outcome α} {o' : Outcome β}

theorem pure {a : α} {b : β} (h : R a b) : Agrees R (Pure.pure a) (Pure.pure b) := ok h

theorem same {R : α → α → Prop} {o : Outcome α} (h : ∀ a, o = .ok a → R a a) : Agrees R o o := by
  cases o with
  | ok a => exact ok (h a rfl)
  | error e => exact error e

theorem weaken {S : α → β → Prop} (ho : Agrees R o o') (hRS : ∀ a b, R a b → S a b) :
    Agrees S o o' := by
  cases ho with
  | ok h => exact ok (hRS _ _ h)
  | error e => exact error e

theorem bind {f : α → Outcome γ} {g : β → Outcome δ} (ho : Agrees R o o')
    (hf : ∀ a b, R a b → Agrees S (f a) (g b)) : Agrees S (o >>= f) (o' >>= g) := by
  cases ho with
  | ok h => exact hf _ _ h
  | error e => exact error e

/-- A step that both take. -/
theorem bind_same {f : α → Outcome γ} {g : α → Outcome δ}
    (hf : ∀ a, o = .ok a → Agrees S (f a) (g a)) : Agrees S (o >>= f) (o >>= g) :=
  bind (R := fun a b => o = .ok a ∧ a = b) (same fun _ h => ⟨h, rfl⟩) fun a _ h => h.2 ▸ hf a h.1

theorem map {f : α → γ} {g : β → δ} (ho : Agrees R o o') (hf : ∀ a b, R a b → S (f a) (g b)) :
    Agrees S (o.map f) (o'.map g) := by
  cases ho with
  | ok h => exact ok (hf _ _ h)
  | error e => exact error e

theorem map_left {S : γ → β → Prop} {f : α → γ} (ho : Agrees R o o')
    (hf : ∀ a b, R a b → S (f a) b) : Agrees S (o.map f) o' := by
  cases ho with
  | ok h => exact ok (hf _ _ h)
  | error e => exact error e

theorem map_right {S : α → δ → Prop} {g : β → δ} (ho : Agrees R o o')
    (hg : ∀ a b, R a b → S a (g b)) : Agrees S o (o'.map g) := by
  cases ho with
  | ok h => exact ok (hg _ _ h)
  | error e => exact error e

theorem mapM {P : α → γ → δ → Prop} {f : α → Outcome γ} {g : α → Outcome δ} {items : List α}
    (hf : ∀ a ∈ items, Agrees (P a) (f a) (g a)) :
    Agrees (Rows P items) (items.mapM f) (items.mapM g) := by
  induction items with
  | nil => exact ok .nil
  | cons a rest ih =>
    rw [List.mapM_cons, List.mapM_cons]
    refine bind (hf a List.mem_cons_self) fun c d hcd => ?_
    refine bind (ih fun x hx => hf x (List.mem_cons_of_mem _ hx)) fun cs ds hall => pure ?_
    exact .cons hcd hall

/-- Steps that agree in a view give lists that are the same in it. -/
theorem mapM_view {ε : Type} {k : γ → ε} {l : δ → ε} {f : α → Outcome γ} {g : α → Outcome δ}
    {items : List α} (hf : ∀ a ∈ items, Agrees (fun c d => k c = l d) (f a) (g a)) :
    Agrees (fun cs ds => cs.map k = ds.map l) (items.mapM f) (items.mapM g) :=
  (mapM hf).weaken fun _ _ hrows => hrows.map_eq

end Agrees

end ApiContract.Outcome
