import Mathlib.Logic.Function.Iterate
import ApiContract.Proofs.Table
import ApiContract.Types.Components

/-! # Failure spreads along references

The failures of a pass are closed: they have every component with an unsupported node
and every component that refers to one of them. They are also no more than that, since
any closed set of names that has the failures before has the failures after.
-/
namespace ApiContract.Types

variable {contract : Contract} {failed : Failed} {F : String → Prop}

def Refers (F : String → Prop) (s : Schema) : Prop := ∃ target ∈ referenced s, F target

def names (failed : Failed) (n : String) : Prop := n ∈ Table.keys failed

/-- A set of components that failure does not spread beyond. -/
structure Closed (contract : Contract) (F : String → Prop) : Prop where
  unsupported : ∀ c ∈ contract.schemas, (unsupportedNode? c.2).isSome → F c.1
  references : ∀ c ∈ contract.schemas, Refers F c.2 → F c.1

theorem names_scanComponent {component : String × Schema} {n : String} :
    names (scanComponent failed component) n ↔
      names failed n ∨ n = component.1 ∧ (unsupportedNode? component.2).isSome := by
  unfold scanComponent
  by_cases hf : Table.has failed component.1 = true
  · rw [if_pos hf]
    refine ⟨Or.inl, ?_⟩
    rintro (h | ⟨rfl, -⟩)
    · exact h
    · exact Table.has_iff.mp hf
  · rw [if_neg hf]
    cases hu : unsupportedNode? component.2 with
    | none => simp
    | some node =>
      simp only [names, Table.mem_keys_put, Option.isSome_some, and_true]
      exact or_comm

theorem firstBroken?_isSome {s : Schema} :
    (firstBroken? failed s).isSome ↔ Refers (names failed) s := by
  have hhead : ∀ l : List String, l.head?.isSome ↔ ∃ x, x ∈ l := by
    intro l
    cases l <;> simp
  simp only [firstBroken?, hhead, List.mem_mergeSort, List.mem_filter, Table.has_iff]
  rfl

theorem names_spreadComponent {component : String × Schema} {n : String} :
    names (spreadComponent failed component) n ↔
      names failed n ∨ n = component.1 ∧ Refers (names failed) component.2 := by
  unfold spreadComponent
  by_cases hf : Table.has failed component.1 = true
  · rw [if_pos hf]
    refine ⟨Or.inl, ?_⟩
    rintro (h | ⟨rfl, -⟩)
    · exact h
    · exact Table.has_iff.mp hf
  · rw [if_neg hf, ← firstBroken?_isSome]
    cases hb : firstBroken? failed component.2 with
    | none => simp
    | some target =>
      simp only [names, Table.mem_keys_put, Option.isSome_some, and_true]
      exact or_comm

theorem Refers.mono {G : String → Prop} {s : Schema} (h : Refers F s) (hFG : ∀ n, F n → G n) :
    Refers G s := by
  obtain ⟨target, ht, hF⟩ := h
  exact ⟨target, ht, hFG target hF⟩

theorem names_scan {components : List (String × Schema)} {n : String} :
    names (components.foldl scanComponent failed) n ↔
      names failed n ∨ ∃ c ∈ components, n = c.1 ∧ (unsupportedNode? c.2).isSome := by
  induction components generalizing failed with
  | nil => simp
  | cons c rest ih =>
    rw [List.foldl_cons, ih, names_scanComponent]
    simp only [List.mem_cons, exists_eq_or_imp, or_assoc]

/-- Spreading keeps every failure and adds the components that refer to one. -/
theorem names_foldl_spread {components : List (String × Schema)} {n : String}
    (h : names failed n ∨ ∃ c ∈ components, n = c.1 ∧ Refers (names failed) c.2) :
    names (components.foldl spreadComponent failed) n := by
  induction components generalizing failed with
  | nil => simpa using h
  | cons c rest ih =>
    rw [List.foldl_cons]
    apply ih
    have hmono : ∀ m, names failed m → names (spreadComponent failed c) m :=
      fun m hm => names_spreadComponent.mpr (Or.inl hm)
    rcases h with h | ⟨d, hd, hn, hr⟩
    · exact Or.inl (hmono n h)
    · rcases List.mem_cons.mp hd with rfl | hd
      · exact Or.inl (names_spreadComponent.mpr (Or.inr ⟨hn, hr⟩))
      · exact Or.inr ⟨d, hd, hn, hr.mono hmono⟩

/-- Spreading does not leave a set that failure does not spread beyond. -/
theorem of_names_foldl_spread {components : List (String × Schema)} {n : String}
    (hF : ∀ c ∈ components, Refers F c.2 → F c.1) (hf : ∀ m, names failed m → F m)
    (h : names (components.foldl spreadComponent failed) n) : F n := by
  induction components generalizing failed with
  | nil => exact hf n h
  | cons c rest ih =>
    rw [List.foldl_cons] at h
    refine ih (fun d hd => hF d (List.mem_cons_of_mem _ hd)) ?_ h
    intro m hm
    rcases names_spreadComponent.mp hm with hm | ⟨rfl, hr⟩
    · exact hf m hm
    · exact hF c List.mem_cons_self (hr.mono hf)

theorem names_spread (contract : Contract) {n : String} (h : names failed n) :
    names (spread contract failed) n :=
  names_foldl_spread (Or.inl h)

/-- Failure does not spread any further. -/
def Spent (contract : Contract) (failed : Failed) : Prop :=
  ∀ c ∈ contract.schemas, Refers (names failed) c.2 → names failed c.1

theorem Spent.spreading (h : Spent contract failed) : Spent contract (spread contract failed) := by
  intro c hc hr
  apply names_spread
  exact h c hc (hr.mono fun n hn => of_names_foldl_spread h (fun _ hm => hm) hn)

def unmarked (contract : Contract) (failed : Failed) : List (String × Schema) :=
  contract.schemas.filter fun c => !Table.has failed c.1

/-- Fewer components are unmarked when every mark is kept and one is new. -/
theorem length_unmarked_lt {failed' : Failed} (hmono : ∀ n, names failed n → names failed' n)
    {c : String × Schema} (hc : c ∈ contract.schemas) (hn : ¬names failed c.1)
    (hmarked : names failed' c.1) :
    (unmarked contract failed').length < (unmarked contract failed).length := by
  have hsub : unmarked contract failed' =
      (unmarked contract failed).filter fun c => !Table.has failed' c.1 := by
    rw [unmarked, unmarked, List.filter_filter]
    apply List.filter_congr
    intro d _
    cases hd : Table.has failed d.1 with
    | false => simp
    | true => simpa using Table.has_iff.mpr (hmono d.1 (Table.has_iff.mp hd))
  rw [hsub, List.length_filter_lt_length_iff_exists]
  refine ⟨c, List.mem_filter.mpr ⟨hc, ?_⟩, ?_⟩
  · simpa using Table.has_eq_false_iff.mpr hn
  · simpa using Table.has_iff.mpr hmarked

/-- Spreading marks a component, unless failure is spent. -/
theorem length_unmarked_spread_lt (h : ¬Spent contract failed) :
    (unmarked contract (spread contract failed)).length < (unmarked contract failed).length := by
  obtain ⟨c, hc, hr, hn⟩ : ∃ c ∈ contract.schemas,
      Refers (names failed) c.2 ∧ ¬names failed c.1 := by
    simpa [Spent] using h
  exact length_unmarked_lt (fun _ hm => names_spread contract hm) hc hn
    (names_foldl_spread (Or.inr ⟨c, hc, rfl, hr⟩))

theorem Spent.iterate (h : Spent contract failed) (k : Nat) :
    Spent contract ((spread contract)^[k] failed) := by
  induction k generalizing failed with
  | zero => exact h
  | succ k ih => exact ih h.spreading

/-- Failure is spent after as many rounds as there are unmarked components. -/
theorem spent_iterate {k : Nat} (h : (unmarked contract failed).length ≤ k) :
    Spent contract ((spread contract)^[k] failed) := by
  induction k generalizing failed with
  | zero =>
    intro c hc _
    by_contra hn
    have hmem : c ∈ unmarked contract failed :=
      List.mem_filter.mpr ⟨hc, by simpa using Table.has_eq_false_iff.mpr hn⟩
    have hpos := List.length_pos_of_mem hmem
    omega
  | succ k ih =>
    by_cases hs : Spent contract failed
    · exact hs.iterate (k + 1)
    · have hlt := length_unmarked_spread_lt hs
      exact ih (by omega)

theorem names_iterate {k : Nat} {n : String} (h : names failed n) :
    names ((spread contract)^[k] failed) n := by
  induction k generalizing failed with
  | zero => exact h
  | succ k ih => exact ih (names_spread contract h)

theorem of_names_iterate (hF : Closed contract F) {k : Nat} {n : String}
    (hf : ∀ m, names failed m → F m) (h : names ((spread contract)^[k] failed) n) : F n := by
  induction k generalizing failed with
  | zero => exact hf n h
  | succ k ih => exact ih (fun m hm => of_names_foldl_spread hF.references hf hm) h

theorem findFailures_eq_iterate (contract : Contract) (failed : Failed) :
    findFailures contract failed =
      (spread contract)^[contract.schemas.length]
        (contract.schemas.foldl scanComponent failed) := by
  rw [findFailures, List.foldl_const, List.length_range]

theorem names_findFailures (contract : Contract) {n : String} (h : names failed n) :
    names (findFailures contract failed) n := by
  rw [findFailures_eq_iterate]
  exact names_iterate (names_scan.mpr (Or.inl h))

theorem closed_findFailures (contract : Contract) (failed : Failed) :
    Closed contract (names (findFailures contract failed)) where
  unsupported := by
    intro c hc hu
    rw [findFailures_eq_iterate]
    exact names_iterate (names_scan.mpr (Or.inr ⟨c, hc, rfl, hu⟩))
  references := by
    rw [findFailures_eq_iterate]
    exact spent_iterate (List.length_filter_le _ _)

theorem of_names_findFailures (hF : Closed contract F) (hf : ∀ m, names failed m → F m)
    {n : String} (h : names (findFailures contract failed) n) : F n := by
  rw [findFailures_eq_iterate] at h
  refine of_names_iterate hF ?_ h
  intro m hm
  rcases names_scan.mp hm with hm | ⟨c, hc, rfl, hu⟩
  · exact hf m hm
  · exact hF.unsupported c hc hu

end ApiContract.Types
