import ApiContract.Proofs.Types.Components
import ApiContract.Proofs.Types.Spread

/-! # The passes come to an end

A pass that is cut short marks one more component, and what is marked once stays marked.
So there is at most one pass more than there are components, as long as every component
that a pass comes to is mapped or fails with a schema fault.
-/
namespace ApiContract.Types

open TypeTables

variable {contract : Contract} {components : List (String × Schema)} {w w' u v : Workspace}

/-- The workspace in which the next pass begins. -/
def restart (contract : Contract) (w : Workspace) : Workspace :=
  { w with tables := startPass contract w.tables }

/-- A run of passes, by their number, with the workspace in which the last one began. -/
inductive Passes (contract : Contract) : Nat → Workspace → Workspace → Workspace → Prop
  | last {w w' : Workspace}
      (complete : mapComponents contract contract.schemas (restart contract w) = .ok true w') :
      Passes contract 1 w (restart contract w) w'
  | again {passes : Nat} {w u v w' : Workspace}
      (cut : mapComponents contract contract.schemas (restart contract w) = .ok false u)
      (others : Passes contract passes u v w') : Passes contract (passes + 1) w v w'

/-- The workspaces in which passes begin. -/
inductive Starts (contract : Contract) : Workspace → Workspace → Prop
  | first {w : Workspace} : Starts contract w (restart contract w)
  | again {w u v : Workspace}
      (cut : mapComponents contract contract.schemas (restart contract w) = .ok false u)
      (later : Starts contract u v) : Starts contract w v

/-- Every component that a pass comes to is mapped or fails with a schema fault. -/
def PassEnds (contract : Contract) (components : List (String × Schema)) (w : Workspace) : Prop :=
  ∀ before c after u, components = before ++ c :: after → Complete contract before w u →
    c.1 ∉ Table.keys u.tables.failed →
    Step.Avoids (fun e => !e.isSchema) (mapComponent contract c.1 c.2) u

/-- In no pass does the mapping of a component go on without end or break off otherwise. -/
def MappingEnds (contract : Contract) (w : Workspace) : Prop :=
  ∀ v, Starts contract w v → PassEnds contract contract.schemas v

theorem PassEnds.skip {c : String × Schema} {rest : List (String × Schema)}
    (h : PassEnds contract (c :: rest) w) (hf : c.1 ∈ Table.keys w.tables.failed) :
    PassEnds contract rest w := by
  intro before d after u split passed
  exact h (c :: before) d after u (by rw [split, List.cons_append]) (.skip hf passed)

theorem PassEnds.enter {c : String × Schema} {rest : List (String × Schema)}
    (h : PassEnds contract (c :: rest) w) (hs : c.1 ∉ Table.keys w.tables.failed)
    (hm : mapComponent contract c.1 c.2 w = .ok () v) : PassEnds contract rest v := by
  intro before d after u split passed
  exact h (c :: before) d after u (by rw [split, List.cons_append]) (.enter hs hm passed)

theorem exists_of_passEnds (h : PassEnds contract components w) :
    ∃ complete w', mapComponents contract components w = .ok complete w' := by
  induction components generalizing w with
  | nil => exact ⟨true, w, rfl⟩
  | cons c rest ih =>
    rw [mapComponents_cons]
    by_cases hf : Table.has w.tables.failed c.1 = true
    · rw [if_pos hf]
      exact ih (h.skip (Table.has_iff.mp hf))
    · rw [if_neg hf]
      have hs : c.1 ∉ Table.keys w.tables.failed := fun hk => hf (Table.has_iff.mpr hk)
      cases hm : mapComponent contract c.1 c.2 w with
      | ok u v => exact ih (h.enter hs hm)
      | error e v =>
        have hschema := h [] c rest w rfl .done hs e v hm
        cases e with
        | schema fault location => exact ⟨false, _, rfl⟩
        | _ => cases hschema

/-- A pass that ended came to no component whose mapping did not end. -/
theorem passEnds_of_eq_ok {complete : Bool}
    (h : mapComponents contract components w = .ok complete w') :
    PassEnds contract components w := by
  intro before c after u split passed hs e v he
  subst split
  induction passed with
  | done =>
    rw [List.nil_append, mapComponents_cons,
      if_neg (fun hf => hs (Table.has_iff.mp hf)), he] at h
    cases e with
    | schema => rfl
    | _ => cases h
  | skip failed _ ih =>
    rw [List.cons_append, mapComponents_cons, if_pos (Table.has_iff.mpr failed)] at h
    exact ih hs he h
  | enter sound entered _ ih =>
    rw [List.cons_append, mapComponents_cons,
      if_neg (fun hf => sound (Table.has_iff.mp hf)), entered] at h
    exact ih hs he h

/-- A pass that is cut short leaves fewer components unmarked for the next. -/
theorem length_unmarked_restart_lt
    (h : mapComponents contract contract.schemas (restart contract w) = .ok false u) :
    (unmarked contract (restart contract u).tables.failed).length <
      (unmarked contract (restart contract w).tables.failed).length := by
  rcases mapComponents_eq_ok h with ⟨hc, -⟩ | ⟨-, name, s, v, hcut⟩
  · cases hc
  · obtain ⟨hnew, -, fault, hfailed⟩ :=
      hcut.failed (blank_startPass contract w.tables).consistent
    have hkept : ∀ n, n = name ∨ names (restart contract w).tables.failed n →
        names (restart contract u).tables.failed n := by
      intro n hn
      rw [restart, failed_startPass, hfailed]
      exact names_findFailures contract (Table.mem_keys_put.mpr hn)
    exact length_unmarked_lt (fun n hn => hkept n (Or.inr hn)) hcut.member hnew
      (hkept name (Or.inl rfl))

theorem MappingEnds.again (h : MappingEnds contract w)
    (cut : mapComponents contract contract.schemas (restart contract w) = .ok false u) :
    MappingEnds contract u := fun v later => h v (.again cut later)

/-- There are no more passes than unmarked components before the first of them, and one. -/
theorem exists_passes {bound : Nat}
    (hb : (unmarked contract (restart contract w).tables.failed).length ≤ bound)
    (h : MappingEnds contract w) :
    ∃ passes v w', passes ≤ bound + 1 ∧ Passes contract passes w v w' := by
  induction bound generalizing w with
  | zero =>
    obtain ⟨complete, u, hpass⟩ := exists_of_passEnds (h _ .first)
    cases complete with
    | true => exact ⟨1, _, u, Nat.le_refl _, .last hpass⟩
    | false =>
      have hlt := length_unmarked_restart_lt hpass
      omega
  | succ bound ih =>
    obtain ⟨complete, u, hpass⟩ := exists_of_passEnds (h _ .first)
    cases complete with
    | true => exact ⟨1, _, u, by omega, .last hpass⟩
    | false =>
      have hlt := length_unmarked_restart_lt hpass
      obtain ⟨passes, v, w', hle, hpasses⟩ := ih (by omega) (h.again hpass)
      exact ⟨passes + 1, v, w', by omega, .again hpass hpasses⟩

theorem buildPasses_of_passes {passes bound : Nat} (h : Passes contract passes w v w')
    (hb : passes ≤ bound) : buildPasses contract bound w = .ok () w' := by
  induction h generalizing bound with
  | last complete =>
    obtain ⟨bound, rfl⟩ := Nat.exists_eq_add_of_le' hb
    rw [restart] at complete
    simp [buildPasses, Step.bind_apply, complete]
  | again cut _ ih =>
    obtain ⟨bound, rfl⟩ := Nat.exists_eq_succ_of_ne_zero (Nat.ne_of_gt (Nat.lt_of_lt_of_le
      (Nat.succ_pos _) hb))
    rw [restart] at cut
    simp [buildPasses, Step.bind_apply, cut, ih (Nat.le_of_succ_le_succ hb)]

theorem Passes.last_start {passes : Nat} (h : Passes contract passes w v w') :
    (∃ u : TypeTables, v.tables = startPass contract u) ∧
      Complete contract contract.schemas v w' := by
  induction h with
  | last complete =>
    rcases mapComponents_eq_ok complete with ⟨-, hall⟩ | ⟨hc, -⟩
    · exact ⟨⟨_, rfl⟩, hall⟩
    · cases hc
  | again _ _ ih => exact ih

/-- The first of some passes is the last one, or it is cut short and others follow. -/
theorem pass_of_buildPasses {bound : Nat} (h : buildPasses contract bound w = .ok () w') :
    mapComponents contract contract.schemas (restart contract w) = .ok true w' ∨
      ∃ u others, mapComponents contract contract.schemas (restart contract w) = .ok false u ∧
        buildPasses contract others u = .ok () w' := by
  cases bound with
  | zero => cases h
  | succ others =>
    obtain ⟨⟨⟩, v, hstart, h⟩ := Step.bind_eq_ok.mp h
    cases hstart
    obtain ⟨complete, u, hpass, h⟩ := Step.bind_eq_ok.mp h
    cases complete with
    | true =>
      cases h
      exact Or.inl hpass
    | false => exact Or.inr ⟨u, others, hpass, h⟩

theorem mappingEnds_of_buildPasses {bound : Nat} (h : buildPasses contract bound w = .ok () w') :
    MappingEnds contract w := by
  intro v hv
  induction hv generalizing bound with
  | first =>
    rcases pass_of_buildPasses h with hpass | ⟨u, others, hpass, -⟩
    · exact passEnds_of_eq_ok hpass
    · exact passEnds_of_eq_ok hpass
  | again cut _ ih =>
    rcases pass_of_buildPasses h with hpass | ⟨u, others, hpass, hrest⟩
    · cases cut.symm.trans hpass
    · cases cut.symm.trans hpass
      exact ih hrest

/-- Tables that were built were built by passes in which every mapping ended. -/
theorem mappingEnds_of_buildTables {ds : List Diagnostic}
    (h : buildTables contract w = .ok ds w') : MappingEnds contract w := by
  obtain ⟨-, v, hpasses, -⟩ := buildTables_eq_ok h
  exact mappingEnds_of_buildPasses hpasses

end ApiContract.Types
