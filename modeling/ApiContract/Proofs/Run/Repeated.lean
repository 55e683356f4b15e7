import ApiContract.Proofs.Run.Reachable
import ApiContract.Proofs.Types.Built

/-! # Building the tables again

The tables that a pass starts from depend on the failed components and on the aliases under
way alone. After a build the failures do not spread any further, and no call that maps
schemas changes them. So the next build takes one pass, which is the last pass of the build
before.
-/
namespace ApiContract.Types

open TypeTables

variable {contract : Contract} {components : List (String × Schema)} {failed : Failed}
  {t t' : TypeTables} {v w w' : Workspace}

theorem foldl_eq_self {α β : Type} {f : α → β → α} {a : α} {items : List β}
    (h : ∀ b ∈ items, f a b = a) : items.foldl f a = a := by
  induction items with
  | nil => rfl
  | cons b rest ih =>
    rw [List.foldl_cons, h b List.mem_cons_self]
    exact ih fun c hc => h c (List.mem_cons_of_mem _ hc)

theorem scanComponent_of_closed (h : Closed contract (names failed)) {c : String × Schema}
    (hc : c ∈ contract.schemas) : scanComponent failed c = failed := by
  unfold scanComponent
  by_cases hf : Table.has failed c.1 = true
  · rw [if_pos hf]
  · rw [if_neg hf]
    cases hu : unsupportedNode? c.2 with
    | none => rfl
    | some node => exact absurd (Table.has_iff.mpr (h.unsupported c hc (by simp [hu]))) hf

theorem spreadComponent_of_closed (h : Closed contract (names failed)) {c : String × Schema}
    (hc : c ∈ contract.schemas) : spreadComponent failed c = failed := by
  unfold spreadComponent
  by_cases hf : Table.has failed c.1 = true
  · rw [if_pos hf]
  · rw [if_neg hf]
    cases hb : firstBroken? failed c.2 with
    | none => rfl
    | some target =>
      have hrefers : Refers (names failed) c.2 := firstBroken?_isSome.mp (by simp [hb])
      exact absurd (Table.has_iff.mpr (h.references c hc hrefers)) hf

/-- Failures that do not spread any further are all that is found. -/
theorem findFailures_of_closed (h : Closed contract (names failed)) :
    findFailures contract failed = failed := by
  have hspread : spread contract failed = failed :=
    foldl_eq_self fun c hc => spreadComponent_of_closed h hc
  rw [findFailures_eq_iterate, foldl_eq_self fun c hc => scanComponent_of_closed h hc]
  exact Function.iterate_fixed hspread _

theorem findFailures_findFailures (contract : Contract) (failed : Failed) :
    findFailures contract (findFailures contract failed) = findFailures contract failed :=
  findFailures_of_closed (closed_findFailures contract failed)

theorem reserveAll_withFailed (t : TypeTables) (failed : Failed) (names : List String) :
    ({ t with failed } : TypeTables).reserveAll names = { t.reserveAll names with failed } := by
  rw [reserveAll_eq_foldl, reserveAll_eq_foldl]
  induction names generalizing t with
  | nil => rfl
  | cons c rest ih => exact ih (t.reserve c)

/-- From the same failures, with the same aliases under way, a pass starts the same. -/
theorem startPass_congr (hf : findFailures contract t.failed = findFailures contract t'.failed)
    (hr : t.resolving = t'.resolving) : startPass contract t = startPass contract t' := by
  have hreset : ∀ u : TypeTables, startPass contract u =
      { ({ resolving := u.resolving } : TypeTables).reserveAll (Table.keys contract.schemas) with
        failed := findFailures contract u.failed } := by
    intro u
    have hnone := reserveAll_withFailed { resolving := u.resolving } u.failed
      (Table.keys contract.schemas)
    simp only [startPass, reset, hnone]
  rw [hreset t, hreset t', hf, hr]

/-- Calls that map schemas change neither the failures nor the aliases under way. -/
theorem frame_of_calls (ht : t.Reserved) (calls : Relation.ReflTransGen (Call contract) t t') :
    t.Frame t' ∧ t'.Reserved := by
  induction calls with
  | refl => exact ⟨Frame.refl t, ht⟩
  | tail _ called ih =>
    obtain ⟨hframe, hreserved⟩ := ih
    exact ⟨hframe.trans (called.grows.frame hreserved), called.grows.reserved hreserved⟩

/-- The last pass of a build has found the failures that the build leaves. -/
theorem LastPass.found (h : LastPass contract w w') :
    w'.tables.failed = findFailures contract w.tables.failed ∧
      w'.tables.resolving = w.tables.resolving := by
  obtain ⟨v, hv, hall⟩ := h
  obtain ⟨hframe, -⟩ := hall.consistent (hv ▸ (blank_startPass contract w.tables).consistent)
  exact ⟨by rw [hframe.failed, hv, failed_startPass],
    by rw [hframe.resolving, hv, resolving_startPass]⟩

/-- A pass from the tables that a build left, or from what calls made of them, starts where
the last pass of the build started. -/
theorem LastPass.startPass_eq (h : LastPass contract w w') (frame : w'.tables.Frame t) :
    startPass contract t = startPass contract w.tables := by
  obtain ⟨hfailed, hresolving⟩ := h.found
  refine startPass_congr ?_ (frame.resolving.trans hresolving)
  rw [frame.failed, hfailed, findFailures_findFailures]

theorem Complete.eq_ok (h : Complete contract components w w') :
    mapComponents contract components w = .ok true w' := by
  induction h with
  | done => rfl
  | skip failed _ ih => rw [mapComponents_cons, if_pos (Table.has_iff.mpr failed), ih]
  | enter sound entered _ ih =>
    rw [mapComponents_cons, if_neg fun hf => sound (Table.has_iff.mp hf), entered]
    exact ih

/-- The last pass of a build, done once more from other tables of the same failures. -/
theorem LastPass.exists_passes (h : LastPass contract w w') (frame : w'.tables.Frame v.tables) :
    ∃ v', Passes contract 1 v (restart contract v) v' ∧ v'.tables = w'.tables := by
  have hstart := h.startPass_eq frame
  obtain ⟨u, hu, hall⟩ := h
  have htables : u.tables = (restart contract v).tables := hu.trans hstart.symm
  have hreads : Step.ReadsTables (mapComponents contract contract.schemas) :=
    mapComponents_of Step.ReadsTables.uniform contract.schemas
  obtain ⟨v', hrun, hv'⟩ := hreads.of_ok htables hall.eq_ok
  exact ⟨v', .last hrun, hv'⟩

theorem buildTables_of_buildPasses
    (h : buildPasses contract (contract.schemas.length + 1) w = .ok () w') :
    ∃ w'', buildTables contract w = .ok (failureDiagnostics contract w'.tables.failed) w'' ∧
      w''.tables = w'.tables := by
  simp only [buildTables, Step.bind_apply, h, Step.tables_apply, Step.record_apply]
  exact ⟨_, rfl, rfl⟩

/-- After a build, and after any calls behind it, building again takes one pass, gives the
same diagnostics and leaves exactly the tables that the first build left: beans, enums and
aliases in their order, the names given out, and the failures. -/
theorem rebuild_of_buildTables {ds : List Diagnostic} (built : buildTables contract w = .ok ds w')
    (later : Relation.ReflTransGen (Call contract) w'.tables v.tables) :
    ∃ last v', Passes contract 1 v (restart contract v) last ∧
      buildTables contract v = .ok ds v' ∧ v'.tables = w'.tables := by
  obtain ⟨hds, x, hpasses, hx⟩ := buildTables_eq_ok built
  obtain ⟨u, hlast⟩ := exists_lastPass hpasses
  rw [← hx] at hds later
  obtain ⟨hframe, -⟩ := frame_of_calls hlast.consistent.reserved later
  obtain ⟨last, honce, htables⟩ := hlast.exists_passes hframe
  obtain ⟨v', hrun, hv'⟩ := buildTables_of_buildPasses (buildPasses_of_passes honce (by omega))
  refine ⟨last, v', honce, ?_, by rw [hv', htables, hx]⟩
  rw [hrun, htables, hds]

def ringTables : TypeTables :=
  (Step.outcome (buildTables ringContract (.fresh ringContract))).2

/-- A box with an enumeration and, behind it, a property of a form that is not supported. -/
def boxSchema : Schema :=
  .object { location := "#/box" }
    [(.text "size", .enumeration { location := "#/size" } (.text "string") [.text "small"]),
     (.text "lid", .unsupported { location := "#/lid" } "oneOf")] [] []

/-- The ring tables after a box failed halfway, which leaves its enumeration behind. -/
def boxTables : TypeTables :=
  (Step.outcome (mapSchema ringContract (some boxSchema) "ring" (.text "box")
    { tables := ringTables })).2

/-- The box tables after one more name was given out. -/
def laterTables : TypeTables :=
  (Step.outcome (synthesizeName "stone" (.text "cut") { tables := boxTables })).2

theorem rebuild_of_buildTables_rings :
    ∃ ds w' last v', buildTables ringContract (.fresh ringContract) = .ok ds w' ∧
      Relation.ReflTransGen (Call ringContract) w'.tables laterTables ∧
      laterTables.entryNames = ["Stone", "StoneCut", "Metal", "RingBoxSize"] ∧
      laterTables.taken.head? = some "StoneCut2" ∧
      Passes ringContract 1 { tables := laterTables }
        (restart ringContract { tables := laterTables }) last ∧
      buildTables ringContract { tables := laterTables } = .ok ds v' ∧
      v'.tables = w'.tables ∧ v'.tables.entryNames = ["Stone", "StoneCut", "Metal"] ∧
      ds.length = 2 := by
  obtain ⟨ds, w', built, hlength⟩ := Step.exists_of_outcome (f := List.length) (b := 2)
    (r := buildTables ringContract (.fresh ringContract)) (by decide +kernel)
  have hw' : w'.tables = ringTables := by rw [ringTables, built, Step.outcome_ok]
  have calls : Relation.ReflTransGen (Call ringContract) w'.tables laterTables := by
    rw [hw']
    exact .tail
      (.single (.mapSchema (some boxSchema) "ring" (.text "box") { tables := ringTables }))
      (.synthesizeName "stone" (.text "cut") { tables := boxTables })
  obtain ⟨last, v', honce, again, htables⟩ :=
    rebuild_of_buildTables (v := { tables := laterTables }) built calls
  refine ⟨ds, w', last, v', built, calls, by decide +kernel, by decide +kernel, honce, again,
    htables, ?_, hlength⟩
  rw [htables, hw']
  decide +kernel

end ApiContract.Types
