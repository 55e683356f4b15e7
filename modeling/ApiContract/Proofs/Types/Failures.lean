import ApiContract.Proofs.Types.Components
import ApiContract.Proofs.Types.Faultless
import ApiContract.Proofs.Types.Spread

/-! # Which components fail

The failed components of the built tables are the least set that failure does not
spread beyond and outside of which every component can be entered. One inclusion comes
from the last pass, which entered every other component; the other holds for each pass,
as a component outside of the set is never the one that a pass ends at.
-/
namespace ApiContract.Types

open TypeTables

variable {contract : Contract} {F : String → Prop}

/-- A component that can be entered when the components of `F` have failed. -/
def Enterable (contract : Contract) (F : String → Prop) (name : String) (s : Schema) : Prop :=
  s.isExternal = true ∨ s.isEnumeration = true ∨
    (s.isObject = true ∧ ∃ level, Merges contract (Mappable contract F level) s) ∨
    (s.isObject = false ∧ ∃ level, Mappable contract F level (.reference s.location name))

/-- A set of failures with which every other component can be entered. -/
structure Settled (contract : Contract) (F : String → Prop) : Prop where
  closed : Closed contract F
  enterable : ∀ c ∈ contract.schemas, ¬F c.1 → Enterable contract F c.1 c.2

theorem Entered.enterable {name javaName : String} {s : Schema} {w w' : Workspace}
    (h : Entered contract name javaName w s w') (hw : Sound contract F w.tables) :
    Enterable contract F name s ∧ Sound contract F w'.tables := by
  cases h with
  | external external => exact ⟨Or.inl external, hw⟩
  | object _ object built =>
    obtain ⟨hmerges, hw'⟩ := explains_buildBean (explains_mapWithin _) built hw
    exact ⟨Or.inr (Or.inr (Or.inl ⟨object, hmerges⟩)), hw'⟩
  | enumeration built =>
    rw [buildEnum_eq_ok built]
    exact ⟨Or.inr (Or.inl rfl), hw.failed, hw.aliases⟩
  | aliased _ noObject _ referred =>
    obtain ⟨hmappable, hw'⟩ := explains_referenceWith (explains_mapWithin _) referred hw
    exact ⟨Or.inr (Or.inr (Or.inr ⟨noObject, hmappable⟩)), hw'⟩

theorem Complete.enterable {components : List (String × Schema)} {w w' : Workspace}
    (h : Complete contract components w w') (ht : w.tables.Consistent)
    (hw : Sound contract F w.tables) (hF : ∀ n, names w.tables.failed n → F n) :
    ∀ c ∈ components, ¬F c.1 → Enterable contract F c.1 c.2 := by
  induction h with
  | done => simp
  | skip failed _ ih =>
    intro c hc hn
    rcases List.mem_cons.mp hc with rfl | hc
    · exact absurd (hF _ failed) hn
    · exact ih ht hw hF c hc hn
  | enter _ entered _ ih =>
    obtain ⟨javaName, -, hentered⟩ := entered_of_eq_ok entered
    obtain ⟨hframe, ht'⟩ := consistent_of_mapComponent ht entered
    obtain ⟨henterable, hw'⟩ := hentered.enterable hw
    have hF' : ∀ n, names _ n → F n := fun n hn => hF n (hframe.failed ▸ hn)
    intro c hc hn
    rcases List.mem_cons.mp hc with rfl | hc
    · exact henterable
    · exact ih ht' hw' hF' c hc hn

theorem LastPass.settled {w w' : Workspace} (h : LastPass contract w w') :
    Settled contract (names w'.tables.failed) := by
  obtain ⟨v, hv, hall⟩ := h
  have hblank : v.tables.Blank := hv ▸ blank_startPass contract w.tables
  obtain ⟨hframe, -⟩ := hall.consistent hblank.consistent
  have hfound : w'.tables.failed = findFailures contract w.tables.failed := by
    rw [hframe.failed, hv, failed_startPass]
  have hsound : Sound contract (names w'.tables.failed) v.tables :=
    { failed := fun n hn => hframe.failed ▸ hn
      aliases := by simp [hblank.aliases] }
  exact
    { closed := hfound ▸ closed_findFailures contract w.tables.failed
      enterable := hall.enterable hblank.consistent hsound fun n hn => hframe.failed ▸ hn }

theorem faultless_mapComponent {name : String} {s : Schema} {w : Workspace}
    (h : Enterable contract F name s) (ht : w.tables.Reserved)
    (hF : ∀ n, names w.tables.failed n → F n) (hr : w.tables.resolving = []) :
    Step.Faultless (mapComponent contract name s) w := by
  have habove : ∀ level, Above contract F level w.tables := fun level =>
    { reserved := ht, failed := hF, resolving := by simp [hr] }
  refine Step.Avoids.bind (.of_ok rfl) fun t v htables => ?_
  cases htables
  refine Step.Avoids.bind (.lift (.need rfl _)) fun javaName v hlift => ?_
  obtain ⟨-, rfl⟩ := Step.lift_eq_ok.mp hlift
  by_cases hx : s.isExternal = true
  · rw [if_pos hx]
    exact .pure _
  rw [if_neg hx]
  rcases h.resolve_left hx with he | ⟨ho, level, hmerges⟩ | ⟨ho, level, hmappable⟩
  · cases s with
    | enumeration => exact .of_ok rfl
    | _ => cases he
  · cases s with
    | object =>
      exact faultless_buildBean (safe_mapWithin _) (growing_mapWithin _) hmerges (habove level)
    | _ => cases ho
  · have hreference := fun place => faultless_referenceWith (safe_mapWithin (depthBound contract 0))
      hmappable.succ (habove level) place
    cases s with
    | object => cases ho
    | enumeration => exact .of_ok rfl
    | _ => exact (hreference _).map _

theorem CutShort.within (hF : Settled contract F) {w w' : Workspace} {name : String} {s : Schema}
    {v : Workspace} (h : CutShort contract contract.schemas w w' name s v)
    (ht : w.tables.Consistent) (hw : ∀ n, names w.tables.failed n → F n)
    (hr : w.tables.resolving = []) :
    (∀ n, names w'.tables.failed n → F n) ∧ w'.tables.resolving = [] := by
  obtain ⟨-, hresolving, own, hfailed⟩ := h.failed ht
  refine ⟨?_, hresolving.trans hr⟩
  obtain ⟨entered, -, hbefore⟩ := h.before
  obtain ⟨hframe, hv⟩ := hbefore.consistent ht
  obtain ⟨fault, location, u, hfail, -⟩ := h.failure
  have hFv : ∀ n, names v.tables.failed n → F n := fun n hn => hw n (hframe.failed ▸ hn)
  have hrv : v.tables.resolving = [] := hframe.resolving.trans hr
  have hname : F name := by
    by_contra hn
    have hs := hF.enterable (name, s) h.member hn
    exact absurd (faultless_mapComponent hs hv.reserved hFv hrv _ u hfail)
      (by simp [Failure.isSchema])
  intro n hn
  rw [names, hfailed] at hn
  rcases Table.mem_keys_put.mp hn with rfl | hn
  · exact hname
  · exact hw n hn

theorem of_names_buildPasses (hF : Settled contract F) {passes : Nat} {w w' : Workspace}
    (h : buildPasses contract passes w = .ok () w')
    (hw : ∀ n, names w.tables.failed n → F n) (hr : w.tables.resolving = []) :
    ∀ n, names w'.tables.failed n → F n := by
  induction passes generalizing w with
  | zero => cases h
  | succ passes ih =>
    obtain ⟨⟨⟩, u, hstart, h⟩ := Step.bind_eq_ok.mp h
    cases hstart
    obtain ⟨complete, v, hpass, h⟩ := Step.bind_eq_ok.mp h
    have hblank := (blank_startPass contract w.tables).consistent
    have hstarted : ∀ n, names (startPass contract w.tables).failed n → F n := by
      rw [failed_startPass]
      exact fun n => of_names_findFailures hF.closed hw
    have hrstarted : (startPass contract w.tables).resolving = [] := by
      rw [resolving_startPass, hr]
    rcases mapComponents_eq_ok hpass with ⟨rfl, hall⟩ | ⟨rfl, name, s, u, hcut⟩
    · cases h
      obtain ⟨hframe, -⟩ := hall.consistent hblank
      exact fun n hn => hstarted n (hframe.failed ▸ hn)
    · obtain ⟨hwithin, hrest⟩ := hcut.within hF hblank hstarted hrstarted
      exact ih h hwithin hrest

/-- The failed components of built tables are the least settled set. -/
theorem failed_least {ds : List Diagnostic} {w w' : Workspace}
    (h : buildTables contract w = .ok ds w') (hw : w.tables.failed = [])
    (hr : w.tables.resolving = []) :
    Settled contract (names w'.tables.failed) ∧
      ∀ F, Settled contract F → ∀ n, names w'.tables.failed n → F n := by
  obtain ⟨-, v, hpasses, ht⟩ := buildTables_eq_ok h
  rw [← ht]
  obtain ⟨u, hlast⟩ := exists_lastPass hpasses
  refine ⟨hlast.settled, fun F hF => of_names_buildPasses hF hpasses ?_ hr⟩
  simp [hw, names]

end ApiContract.Types
