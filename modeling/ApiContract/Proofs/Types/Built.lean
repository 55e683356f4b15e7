import ApiContract.Proofs.Types.Promises
import ApiContract.Proofs.Types.Rebuild
import ApiContract.Proofs.Types.WellNamed

/-! # Where the entries of built tables come from

The last pass starts from tables without entries, so that each entry of built tables came
while some component was mapped in that pass: it stands under the name of the component,
or under a name that was derived meanwhile. What earlier passes and failed components
entered is gone.
-/
namespace ApiContract.Types

open TypeTables Addition

variable {contract : Contract} {components : List (String × Schema)} {c : String × Schema}
  {u u' v w : Workspace}

/-- The mapping of a component in a complete pass, with the workspaces around it. -/
structure Maps (contract : Contract) (components : List (String × Schema)) (v w : Workspace)
    (c : String × Schema) (u u' : Workspace) : Prop where
  position : ∃ before after, components = before ++ c :: after ∧
    Complete contract before v u ∧ Complete contract after u' w
  sound : c.1 ∉ Table.keys u.tables.failed
  mapped : mapComponent contract c.1 c.2 u = .ok () u'

/-- A name that was derived for an entry while a component was mapped that did not fail. -/
def Derived (contract : Contract) (v w : Workspace) (n : String) : Prop :=
  ∃ c u u', Maps contract contract.schemas v w c u u' ∧ c.1 ∉ Table.keys w.tables.failed ∧
    n ∉ u.tables.taken ∧ n ∈ u'.tables.taken ∧ n ∈ u'.tables.entryNames ∧
    Appends u'.tables w.tables

/-- The name of a component that has an entry of its own. -/
def Own (contract : Contract) (t : TypeTables) (n : String) : Prop :=
  Promised contract hasBean t n ∨ Promised contract hasEnum t n

theorem Maps.skip {d : String × Schema} (h : Maps contract components v w c u u')
    (hd : d.1 ∈ Table.keys v.tables.failed) : Maps contract (d :: components) v w c u u' := by
  obtain ⟨before, after, rfl, hbefore, hafter⟩ := h.position
  exact { h with position := ⟨d :: before, after, rfl, .skip hd hbefore, hafter⟩ }

theorem Maps.enter {d : String × Schema} {x : Workspace} (h : Maps contract components x w c u u')
    (hd : d.1 ∉ Table.keys v.tables.failed) (hm : mapComponent contract d.1 d.2 v = .ok () x) :
    Maps contract (d :: components) v w c u u' := by
  obtain ⟨before, after, rfl, hbefore, hafter⟩ := h.position
  exact { h with position := ⟨d :: before, after, rfl, .enter hd hm hbefore, hafter⟩ }

/-- What holds after a pass and not before came about while some component was mapped. -/
theorem Complete.exists_maps_of_new {P : TypeTables → Prop}
    (h : Complete contract components v w) (hv : ¬P v.tables) (hw : P w.tables) :
    ∃ c u u', Maps contract components v w c u u' ∧ ¬P u.tables ∧ P u'.tables := by
  induction h with
  | done => exact absurd hw hv
  | skip failed _ ih =>
    obtain ⟨c, u, u', hmaps, hP⟩ := ih hv hw
    exact ⟨c, u, u', hmaps.skip failed, hP⟩
  | @enter name s rest v x w sound entered others ih =>
    by_cases hx : P x.tables
    · exact ⟨(name, s), v, x, ⟨⟨[], rest, rfl, .done, others⟩, sound, entered⟩, hv, hx⟩
    · obtain ⟨c, u, u', hmaps, hP⟩ := ih hx hw
      exact ⟨c, u, u', hmaps.enter sound entered, hP⟩

/-- A component that has not failed is mapped in a complete pass. -/
theorem Complete.exists_maps (h : Complete contract components v w) (ht : v.tables.Consistent)
    (hc : c ∈ components) (hs : c.1 ∉ Table.keys v.tables.failed) :
    ∃ u u', Maps contract components v w c u u' := by
  induction h with
  | done => cases hc
  | skip failed _ ih =>
    rcases List.mem_cons.mp hc with rfl | hc
    · exact absurd failed hs
    · obtain ⟨u, u', hmaps⟩ := ih ht hc hs
      exact ⟨u, u', hmaps.skip failed⟩
  | @enter name s rest v x w sound entered others ih =>
    rcases List.mem_cons.mp hc with rfl | hc
    · exact ⟨v, x, ⟨⟨[], rest, rfl, .done, others⟩, sound, entered⟩⟩
    · obtain ⟨hframe, hx⟩ := consistent_of_mapComponent ht entered
      obtain ⟨u, u', hmaps⟩ := ih hx hc (hframe.failed ▸ hs)
      exact ⟨u, u', hmaps.enter sound entered⟩

theorem Complete.appends (h : Complete contract components v w)
    (hv : Waiting contract components v.tables) (hsub : ∀ c ∈ components, c ∈ contract.schemas)
    (hd : (Table.keys components).Nodup) : Appends v.tables w.tables := by
  induction h with
  | done => exact .refl _
  | skip _ _ ih =>
    exact ih hv.skip (fun c hc => hsub c (List.mem_cons_of_mem _ hc)) (List.nodup_cons.mp hd).2
  | enter _ entered _ ih =>
    obtain ⟨-, a, -, -, he, hx⟩ := waiting_mapComponent hv (hsub _ List.mem_cons_self) hd
    rw [entered] at he hx
    dsimp only [Step.outcome_ok] at he
    have hrest := ih hx (fun c hc => hsub c (List.mem_cons_of_mem _ hc)) (List.nodup_cons.mp hd).2
    rw [he] at hrest
    exact (appends_extend _ a).trans hrest

theorem mapComponent_external {component : String} {s : Schema} (hx : s.isExternal = true)
    (h : mapComponent contract component s u = .ok () u') : u' = u := by
  obtain ⟨t, x, ht, h⟩ := Step.bind_eq_ok.mp h
  cases ht
  obtain ⟨javaName, x, hlift, h⟩ := Step.bind_eq_ok.mp h
  obtain ⟨-, rfl⟩ := Step.lift_eq_ok.mp hlift
  rw [if_pos hx] at h
  cases h
  rfl

/-- A new entry stands under the name of the component or under a derived name. -/
theorem own_or_derived_of_mapComponent {component n : String} {s : Schema}
    (h : mapComponent contract component s u = .ok () u') (ht : u.tables.Reserved)
    (hnew : n ∉ u.tables.entryNames) (hn : n ∈ u'.tables.entryNames) :
    (Table.get? u.tables.typeNames component = some n ∧ (hasBean s = true ∨ hasEnum s = true)) ∨
      (n ∉ u.tables.taken ∧ n ∈ u'.tables.taken) := by
  have hparts : ∀ t : TypeTables, u.tables.Grows t → n ∈ t.entryNames →
      n ∉ u.tables.taken ∧ n ∈ t.taken := by
    intro t hg hnt
    obtain ⟨a, ha, rfl⟩ := hg ht
    have hna := (mem_entryNames_extend.mp hnt).resolve_left hnew
    have hgiven := (ha.named n hna).resolve_right (by simp)
    exact ⟨ha.names n hgiven, List.mem_append_left _ hgiven⟩
  have hown : s.isExternal = false := by
    by_contra hx
    rw [mapComponent_external (Bool.not_eq_false _ ▸ hx) h] at hn
    exact hnew hn
  obtain ⟨javaName, hname, hentered⟩ := entered_of_eq_ok h
  cases hentered with
  | external => exact absurd hn hnew
  | object _ object built =>
    obtain ⟨merged, fields, x, -, hfields, hx⟩ := buildBean_eq_ok built
    have hgrows := (keeps_beanFields (growing_mapWithin _) _ _ _).of_ok hfields
    rw [hx] at hn ⊢
    rcases mem_entryNames_withBean hn with rfl | hn
    · exact Or.inl ⟨hname, Or.inl (by simp [hasBean, hown, object])⟩
    · exact Or.inr (hparts x.tables hgrows hn)
  | enumeration built =>
    rw [buildEnum_eq_ok built] at hn
    rcases mem_entryNames_withEnum hn with rfl | hn
    · exact Or.inl ⟨hname, Or.inr (by simp [hasEnum, hown, Schema.isEnumeration])⟩
    · exact absurd hn hnew
  | aliased _ _ _ referred =>
    exact Or.inr (hparts _ ((keeps_referenceWith (growing_mapWithin _) _ _).of_ok referred) hn)

/-- The entry of a component under its own name. -/
theorem exists_entry_of_mapComponent {component : String} {s : Schema}
    (h : mapComponent contract component s u = .ok () u') :
    ∃ n, Table.get? u.tables.typeNames component = some n ∧
      (hasBean s = true → ∃ fields, (n, beanOf n s fields) ∈ u'.tables.beans) ∧
      ∀ notes type values, s = .enumeration notes type values → hasEnum s = true →
        (n, enumOf n s values) ∈ u'.tables.enums := by
  obtain ⟨javaName, hname, hentered⟩ := entered_of_eq_ok h
  refine ⟨javaName, hname, ?_⟩
  cases hentered with
  | external external => simp [hasBean, hasEnum, external]
  | object _ object built =>
    obtain ⟨merged, fields, x, -, -, hx⟩ := buildBean_eq_ok built
    have hmem := Table.mem_of_get? (Table.get?_put_self x.tables.beans javaName
      (beanOf javaName s fields))
    rw [hx]
    refine ⟨fun _ => ⟨fields, hmem⟩, ?_⟩
    rintro notes type values rfl
    cases object
  | @enumeration notes type values _ built =>
    rw [buildEnum_eq_ok built]
    refine ⟨by simp [hasBean, Schema.isObject], ?_⟩
    rintro _ _ _ ⟨⟩ -
    exact Table.mem_of_get? (Table.get?_put_self u.tables.enums javaName _)
  | aliased _ noObject noEnumeration =>
    simp [hasBean, hasEnum, noObject, noEnumeration]

section LastPass
variable (distinct : (Table.keys contract.schemas).Nodup)
  (start : ∃ t : TypeTables, v.tables = startPass contract t)
include distinct start

/-- Where a component is mapped, the names tell types apart, and nothing that is entered
then is lost in the rest of the pass. -/
theorem Maps.appends (h : Maps contract contract.schemas v w c u u') :
    WellNamed contract u.tables ∧ c ∈ contract.schemas ∧ u.tables.failed = v.tables.failed ∧
      u.tables.Frame u'.tables ∧ u'.tables.Frame w.tables ∧ Appends u'.tables w.tables := by
  obtain ⟨t, ht⟩ := start
  obtain ⟨before, after, split, hbefore, hafter⟩ := h.position
  have hmem : c ∈ contract.schemas := by simp [split]
  have hsub : ∀ d ∈ before ++ c :: after, d ∈ contract.schemas := by simp [split]
  have hd : (Table.keys (before ++ c :: after)).Nodup := split ▸ distinct
  have hdc : (Table.keys (c :: after)).Nodup := by
    rw [Table.keys_append] at hd
    exact (List.nodup_append.mp hd).2.1
  have hv : Waiting contract (before ++ c :: after) v.tables := ht ▸ waiting_startPass contract _ t
  have hu := hbefore.waiting hv (fun d hd => hsub d (by simp [hd])) hd
  obtain ⟨-, -, -, -, -, hu'⟩ := waiting_mapComponent hu hmem hdc
  rw [h.mapped, Step.outcome_ok] at hu'
  obtain ⟨hframe, -⟩ := hbefore.consistent hv.toConsistent
  obtain ⟨hmapped, -⟩ := consistent_of_mapComponent hu.toConsistent h.mapped
  obtain ⟨hrest, -⟩ := hafter.consistent hu'.toConsistent
  exact ⟨hu.toWellNamed, hmem, hframe.failed, hmapped, hrest,
    hafter.appends hu' (fun d hd => hsub d (by simp [hd])) (List.nodup_cons.mp hdc).2⟩

/-- Every entry after the last pass is that of a component or was derived in the pass. -/
theorem Complete.own_or_derived (h : Complete contract contract.schemas v w) {n : String}
    (hn : n ∈ w.tables.entryNames) : Own contract w.tables n ∨ Derived contract v w n := by
  have hblank : v.tables.Blank := by
    obtain ⟨t, ht⟩ := start
    exact ht ▸ blank_startPass contract t
  have hnone : n ∉ v.tables.entryNames := by
    simp [TypeTables.entryNames, hblank.beans, hblank.enums]
  obtain ⟨c, u, u', hmaps, hu, hu'⟩ :=
    h.exists_maps_of_new (P := fun t => n ∈ t.entryNames) hnone hn
  obtain ⟨hwell, hc, -, hfirst, hrest, happends⟩ := hmaps.appends distinct start
  have hsound : c.1 ∉ Table.keys w.tables.failed := by
    rw [hrest.failed, hfirst.failed]
    exact hmaps.sound
  have hnames : w.tables.typeNames = u.tables.typeNames := hrest.typeNames.trans hfirst.typeNames
  rcases own_or_derived_of_mapComponent hmaps.mapped hwell.reserved hu hu' with
    ⟨hname, hform⟩ | ⟨hnew, htaken⟩
  · rw [← hnames] at hname
    exact Or.inl (hform.imp (fun hb => ⟨c, hc, hb, hsound, hname⟩)
      fun he => ⟨c, hc, he, hsound, hname⟩)
  · exact Or.inr ⟨c, u, u', hmaps, hsound, hnew, htaken, hu', happends⟩

/-- A component that has not failed has its entry after the last pass. -/
theorem Complete.exists_entry (h : Complete contract contract.schemas v w)
    (hc : c ∈ contract.schemas) (hs : c.1 ∉ Table.keys w.tables.failed) :
    ∃ n, Table.get? w.tables.typeNames c.1 = some n ∧
      (hasBean c.2 = true → ∃ fields, (n, beanOf n c.2 fields) ∈ w.tables.beans) ∧
      ∀ notes type values, c.2 = .enumeration notes type values → hasEnum c.2 = true →
        (n, enumOf n c.2 values) ∈ w.tables.enums := by
  have hconsistent : v.tables.Consistent := by
    obtain ⟨t, ht⟩ := start
    exact ht ▸ (blank_startPass contract t).consistent
  obtain ⟨hframe, -⟩ := h.consistent hconsistent
  obtain ⟨u, u', hmaps⟩ := h.exists_maps hconsistent hc (hframe.failed ▸ hs)
  obtain ⟨-, -, -, hfirst, hrest, happends⟩ := hmaps.appends distinct start
  obtain ⟨n, hn, hbean, henum⟩ := exists_entry_of_mapComponent hmaps.mapped
  refine ⟨n, (hrest.typeNames.trans hfirst.typeNames) ▸ hn, ?_, ?_⟩
  · intro hb
    obtain ⟨fields, hmem⟩ := hbean hb
    exact ⟨fields, happends.beans.subset hmem⟩
  · intro notes type values hshape he
    exact happends.enums.subset (henum notes type values hshape he)

end LastPass

/-- What holds of built tables: `v` and `w` are around the last pass. -/
structure Built (contract : Contract) (v w : Workspace) (ds : List Diagnostic) : Prop where
  unsupported : ∀ c ∈ contract.schemas, ∀ notes what,
    Schema.unsupported notes what ∈ c.2.nodes → c.1 ∈ Table.keys w.tables.failed
  references : ∀ c ∈ contract.schemas, ∀ d ∈ contract.schemas, ∀ location,
    Schema.reference location d.1 ∈ c.2.nodes → d.1 ∈ Table.keys w.tables.failed →
      c.1 ∈ Table.keys w.tables.failed
  diagnostics : List.Forall₂
    (fun c d => ∃ fault, Table.get? w.tables.failed c.1 = some fault ∧ d = fault.diagnostic)
    (contract.schemas.filter fun c => Table.has w.tables.failed c.1) ds
  beans : ∀ c ∈ contract.schemas, hasBean c.2 = true → c.1 ∉ Table.keys w.tables.failed →
    ∃ n fields, Table.get? w.tables.typeNames c.1 = some n ∧
      (n, beanOf n c.2 fields) ∈ w.tables.beans ∧ w.tables.entryNames.count n = 1
  enums : ∀ c ∈ contract.schemas, hasEnum c.2 = true → c.1 ∉ Table.keys w.tables.failed →
    ∃ n values, Table.get? w.tables.typeNames c.1 = some n ∧
      (n, enumOf n c.2 values) ∈ w.tables.enums ∧ w.tables.entryNames.count n = 1
  failed : ∀ c ∈ contract.schemas, c.1 ∈ Table.keys w.tables.failed →
    ∃ n, Table.get? w.tables.typeNames c.1 = some n ∧ n ∉ w.tables.entryNames
  others : ∀ n ∈ w.tables.entryNames, Own contract w.tables n ∨ Derived contract v w n

theorem forall₂_failureDiagnostics (contract : Contract) (failed : Failed) :
    List.Forall₂ (fun c d => ∃ fault, Table.get? failed c.1 = some fault ∧ d = fault.diagnostic)
      (contract.schemas.filter fun c => Table.has failed c.1)
      (failureDiagnostics contract failed) := by
  unfold failureDiagnostics
  induction contract.schemas with
  | nil => exact .nil
  | cons c rest ih =>
    cases hf : Table.get? failed c.1 with
    | none =>
      have hn : Table.has failed c.1 = false :=
        Table.has_eq_false_iff.mpr (Table.get?_eq_none_iff.mp hf)
      simpa [hf, hn] using ih
    | some fault =>
      have hy : Table.has failed c.1 = true := Table.has_iff.mpr (Table.mem_keys_of_get? hf)
      simp only [List.filter_cons, hy, if_true, List.filterMap_cons, hf, Option.map_some]
      exact .cons ⟨fault, hf, rfl⟩ ih

theorem Complete.built (distinct : (Table.keys contract.schemas).Nodup)
    (named : ∀ c ∈ contract.schemas, c.1 ≠ "")
    (start : ∃ t : TypeTables, v.tables = startPass contract t)
    (h : Complete contract contract.schemas v w) :
    Built contract v w (failureDiagnostics contract w.tables.failed) := by
  obtain ⟨t, ht⟩ := id start
  have hblank : v.tables.Blank := ht ▸ blank_startPass contract t
  have hwaiting : Waiting contract (contract.schemas ++ []) v.tables :=
    ht ▸ waiting_startPass contract _ t
  have hwell := (h.waiting hwaiting (fun _ hc => hc) (by simpa using distinct)).toWellNamed
  obtain ⟨hreaches, hlinked, -⟩ := h.linked hblank.linked
  have hclosed : Closed contract (names w.tables.failed) := by
    rw [hreaches.failed, ht, failed_startPass]
    exact closed_findFailures contract t.failed
  have hcount : ∀ n ∈ w.tables.entryNames, w.tables.entryNames.count n = 1 :=
    fun n hn => List.count_eq_one_of_mem hwell.entries hn
  exact
    { unsupported := by
        intro c hc notes what hnode
        apply hclosed.unsupported c hc
        rw [unsupportedNode?, List.findSome?_isSome_iff]
        exact ⟨_, hnode, rfl⟩
      references := by
        intro c hc d hd location hnode hfailed
        apply hclosed.references c hc
        refine ⟨d.1, ?_, hfailed⟩
        rw [referenced, List.mem_filterMap]
        exact ⟨_, hnode, by simp [named d hd]⟩
      diagnostics := forall₂_failureDiagnostics contract w.tables.failed
      beans := by
        intro c hc hb hs
        obtain ⟨n, hn, hbean, -⟩ := h.exists_entry distinct start hc hs
        obtain ⟨fields, hmem⟩ := hbean hb
        exact ⟨n, fields, hn, hmem,
          hcount n (List.mem_append_left _ (Table.mem_keys_of_mem hmem))⟩
      enums := by
        intro c hc he hs
        obtain ⟨n, hn, -, henum⟩ := h.exists_entry distinct start hc hs
        obtain ⟨notes, type, values, hshape⟩ : ∃ notes type values,
            c.2 = .enumeration notes type values := by
          cases hc2 : c.2 with
          | enumeration notes type values => exact ⟨notes, type, values, rfl⟩
          | _ => simp [hasEnum, Schema.isEnumeration, hc2] at he
        have hmem := henum notes type values hshape he
        exact ⟨n, values, hn, hmem,
          hcount n (List.mem_append_right _ (Table.mem_keys_of_mem hmem))⟩
      failed := by
        intro c hc hf
        obtain ⟨n, hn⟩ := hwell.components c.1 (Table.mem_keys_of_mem hc)
        exact ⟨n, hn, fun hentry => hlinked.sound n hentry c.1 hf hn⟩
      others := fun n hn => h.own_or_derived distinct start hn }

/-- When the mapping of every component ends, so do the passes, of which there is at most
one more than there are components; the tables hold what the last of them entered. -/
theorem exists_built (distinct : (Table.keys contract.schemas).Nodup)
    (named : ∀ c ∈ contract.schemas, c.1 ≠ "") (ends : MappingEnds contract w) :
    ∃ passes v last ds w', passes ≤ contract.schemas.length + 1 ∧
      Passes contract passes w v last ∧ buildTables contract w = .ok ds w' ∧
      w'.tables = last.tables ∧ Built contract v last ds := by
  obtain ⟨passes, v, last, hle, hpasses⟩ :=
    exists_passes (List.length_filter_le _ contract.schemas) ends
  obtain ⟨hstart, hall⟩ := hpasses.last_start
  have hbuilt := buildPasses_of_passes hpasses hle
  obtain ⟨w', hrun, htables⟩ : ∃ w', buildTables contract w =
      .ok (failureDiagnostics contract last.tables.failed) w' ∧ w'.tables = last.tables := by
    simp only [buildTables, Step.bind_apply, hbuilt, Step.tables_apply, Step.record_apply]
    exact ⟨_, rfl, rfl⟩
  exact ⟨passes, v, last, _, w', hle, hpasses, hrun, htables, hall.built distinct named hstart⟩

/-- A ring has itself as a member, which shows only after the band was entered. -/
def ringContract : Contract :=
  { title := "Rings", version := "1",
    schemas := [
      ("band", .object { location := "#/components/schemas/band" }
        [(.text "clasp", .enumeration { location := "#/clasp" } (.text "string") [.text "pin"]),
         (.text "next", .reference "#/next" "ring")] [] []),
      ("ring", .object { location := "#/components/schemas/ring" } [] []
        [.reference "#/allOf/0" "ring"]),
      ("stone", .object { location := "#/components/schemas/stone" }
        [(.text "cut",
          .enumeration { location := "#/cut" } (.text "string") [.text "oval"])] [] []),
      ("metal", .enumeration { location := "#/components/schemas/metal" } (.text "string")
        [.text "gold"])] }

theorem exists_built_rings :
    (∃ passes v last ds w', passes ≤ 5 ∧
      Passes ringContract passes (.fresh ringContract) v last ∧
      buildTables ringContract (.fresh ringContract) = .ok ds w' ∧
      w'.tables = last.tables ∧ Built ringContract v last ds) ∧
    Table.keys (Step.outcome (buildTables ringContract (.fresh ringContract))).2.failed =
      ["ring", "band"] ∧
    (Step.outcome (buildTables ringContract (.fresh ringContract))).2.entryNames =
      ["Stone", "StoneCut", "Metal"] := by
  obtain ⟨ds, w, h, -⟩ := Step.exists_of_outcome (f := List.length) (b := 2)
    (r := buildTables ringContract (.fresh ringContract)) (by decide +kernel)
  have distinct : (Table.keys ringContract.schemas).Nodup := by decide
  have named : ∀ c ∈ ringContract.schemas, c.1 ≠ "" := by
    have hkeys : "" ∉ Table.keys ringContract.schemas := by decide
    exact fun c hc he => hkeys (he ▸ Table.mem_keys_of_mem hc)
  exact ⟨exists_built distinct named (mappingEnds_of_buildTables h), by decide +kernel,
    by decide +kernel⟩

end ApiContract.Types
