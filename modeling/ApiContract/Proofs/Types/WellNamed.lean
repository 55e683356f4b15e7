import ApiContract.Proofs.Types.Components

/-! # Names tell types apart

Tables are well named when no name was given out twice, every component has one, and the
entries stand under names of their own. Adding to well-named tables keeps them so. During
a pass the components to come have no entry yet, so that entering them only appends.
-/
namespace ApiContract

namespace TypeTables

structure WellNamed (contract : Contract) (t : TypeTables) : Prop extends Consistent t where
  entries : t.entryNames.Nodup
  beanNames : ∀ e ∈ t.beans, e.2.name = e.1
  enumNames : ∀ e ∈ t.enums, e.2.name = e.1
  components : ∀ c ∈ Table.keys contract.schemas, ∃ n, Table.get? t.typeNames c = some n
  given : t.taken.Nodup

/-- Well-named tables in which the components to come have no entry. -/
structure Waiting (contract : Contract) (rest : List (String × Schema)) (t : TypeTables) : Prop
    extends WellNamed contract t where
  free : ∀ c ∈ rest, ∀ n, Table.get? t.typeNames c.1 = some n → n ∉ t.entryNames

variable {contract : Contract} {t t' : TypeTables}

open Addition

/-- No entry was changed or lost, and no name was taken back. -/
structure Appends (t t' : TypeTables) : Prop where
  beans : t.beans <+: t'.beans
  enums : t.enums <+: t'.enums
  taken : t.taken <:+ t'.taken

theorem appends_extend (t : TypeTables) (a : Addition) : Appends t (t.extend a) :=
  ⟨List.prefix_append _ _, List.prefix_append _ _, List.suffix_append _ _⟩

theorem Grows.appends (h : t.Grows t') (ht : t.Reserved) : Appends t t' := by
  obtain ⟨a, -, rfl⟩ := h ht
  exact appends_extend t a

theorem Appends.refl (t : TypeTables) : Appends t t :=
  ⟨List.prefix_rfl, List.prefix_rfl, List.suffix_rfl⟩

theorem Appends.trans {u : TypeTables} (h : Appends t u) (h' : Appends u t') : Appends t t' :=
  ⟨h.beans.trans h'.beans, h.enums.trans h'.enums, h.taken.trans h'.taken⟩

theorem nodup_entryNames_extend {a : Addition} (ht : t.entryNames.Nodup)
    (ha : a.entryNames.Nodup) (hta : ∀ n ∈ a.entryNames, n ∉ t.entryNames) :
    (t.extend a).entryNames.Nodup := by
  have hall := nodup_entryNames_append (a := { beans := t.beans, enums := t.enums }) ht ha
    fun n hn h => hta n h hn
  exact hall

theorem WellNamed.extend {given : List String} {a : Addition} (h : WellNamed contract t)
    (ha : Fits given a t) (hg : ∀ n ∈ given, t.Free n) : WellNamed contract (t.extend a) where
  reserved := h.reserved.extend (fun n hn => (hg n hn).1) ha
  named := (frame_extend t a).named h.named
  entries := by
    apply nodup_entryNames_extend h.entries ha.apart
    intro n hn hold
    rcases ha.named n hn with hn | hn
    · exact ha.names n hn (h.reserved n hold)
    · exact (hg n hn).2 hold
  beanNames := fun e he => (List.mem_append.mp he).elim (h.beanNames e) (ha.beanNames e)
  enumNames := fun e he => (List.mem_append.mp he).elim (h.enumNames e) (ha.enumNames e)
  components := h.components
  given := ha.distinct.append h.given ha.names

theorem WellNamed.grows (h : WellNamed contract t) (hg : t.Grows t') : WellNamed contract t' := by
  obtain ⟨a, ha, rfl⟩ := hg h.reserved
  exact h.extend ha (by simp)

theorem WellNamed.withFailed (h : WellNamed contract t) (failed : Table String Fault) :
    WellNamed contract { t with failed } where
  reserved := h.reserved
  named := ⟨h.named.taken, h.named.distinct⟩
  entries := h.entries
  beanNames := h.beanNames
  enumNames := h.enumNames
  components := h.components
  given := h.given

theorem Waiting.skip {c : String × Schema} {rest : List (String × Schema)}
    (h : Waiting contract (c :: rest) t) : Waiting contract rest t :=
  { h with free := fun d hd => h.free d (List.mem_cons_of_mem _ hd) }

/-- Entering a waiting component appends its entry and those of its parts. -/
theorem Waiting.enter {c : String × Schema} {rest : List (String × Schema)} {n : String}
    (h : Waiting contract (c :: rest) t) (hc : c.1 ∉ Table.keys rest)
    (hn : Table.get? t.typeNames c.1 = some n) (hg : t.GrowsWith [n] t') :
    Waiting contract rest t' ∧ ∃ a, Fits [n] a t ∧ t' = t.extend a := by
  have hfree : ∀ m ∈ [n], t.Free m := by
    intro m hm
    rw [List.mem_singleton.mp hm]
    exact ⟨h.named.taken c.1 n hn, h.free c List.mem_cons_self n hn⟩
  obtain ⟨a, ha, rfl⟩ := hg h.reserved hfree
  refine ⟨{ h.toWellNamed.extend ha hfree with free := ?_ }, a, ha, rfl⟩
  intro d hd m hm hentry
  have htaken := h.named.taken d.1 m hm
  rcases mem_entryNames_extend.mp hentry with hold | hnew
  · exact h.free d (List.mem_cons_of_mem _ hd) m hm hold
  · rcases ha.named m hnew with hnew | hown
    · exact ha.names m hnew htaken
    · have hsame := h.named.distinct d.1 c.1 m hm (List.mem_singleton.mp hown ▸ hn)
      exact hc (hsame ▸ Table.mem_keys_of_mem hd)

theorem nodup_taken_reserveAll (h : t.taken.Nodup) (components : List String) :
    (t.reserveAll components).taken.Nodup := by
  rw [reserveAll_eq_foldl]
  induction components generalizing t with
  | nil => exact h
  | cons c rest ih => exact ih (List.nodup_cons.mpr ⟨freshName_notMem t _, h⟩)

theorem exists_get?_reserveAll {c : String} {components : List String}
    (h : c ∈ Table.keys t.typeNames ∨ c ∈ components) :
    ∃ n, Table.get? (t.reserveAll components).typeNames c = some n := by
  rw [reserveAll_eq_foldl]
  induction components generalizing t with
  | nil => exact Table.exists_get?_of_mem_keys (by simpa using h)
  | cons d rest ih =>
    apply ih
    rcases h with h | h
    · exact Or.inl (Table.mem_keys_put.mpr (Or.inr h))
    · rcases List.mem_cons.mp h with rfl | h
      · exact Or.inl (Table.mem_keys_put.mpr (Or.inl rfl))
      · exact Or.inr h

theorem wellNamed_reset (t : TypeTables) (contract : Contract) :
    WellNamed contract (t.reset contract) :=
  have hblank := blank_reset t contract
  { hblank.consistent with
    entries := by simp [entryNames, hblank.beans, hblank.enums]
    beanNames := by simp [hblank.beans]
    enumNames := by simp [hblank.enums]
    components := fun _ hc => exists_get?_reserveAll (Or.inr hc)
    given := nodup_taken_reserveAll (by simp) _ }

end TypeTables

namespace Types

open TypeTables Addition

variable {contract : Contract}

theorem waiting_startPass (contract : Contract) (rest : List (String × Schema))
    (t : TypeTables) : Waiting contract rest (startPass contract t) :=
  have hblank := blank_startPass contract t
  { (wellNamed_reset t contract).withFailed (findFailures contract (t.reset contract).failed) with
    free := by simp [TypeTables.entryNames, hblank.beans, hblank.enums] }

/-- However the mapping of a component ends, it adds under the name of the component and
under new names. -/
theorem growsWith_mapComponent {component javaName : String} {s : Schema} {w : Workspace}
    (hn : Table.get? w.tables.typeNames component = some javaName) :
    GrowsWith [javaName] w.tables (Step.outcome (mapComponent contract component s w)).2 := by
  unfold mapComponent
  simp only [Step.bind_apply, Step.tables_apply, hn, need, Step.lift]
  by_cases hx : s.isExternal = true
  · rw [if_pos hx]
    exact (Grows.refl _).growsWith _
  · rw [if_neg hx]
    cases s with
    | object => exact keeps_buildBean (growing_mapWithin _) javaName _ w
    | enumeration => exact keeps_buildEnum javaName _ _ w
    | _ => exact (((keeps_reference component _).map fun _ => ()) w).growsWith _

theorem waiting_mapComponent {c : String × Schema} {rest : List (String × Schema)}
    {w : Workspace} (h : Waiting contract (c :: rest) w.tables)
    (hc : c ∈ contract.schemas) (hd : (Table.keys (c :: rest)).Nodup) :
    ∃ n a, Table.get? w.tables.typeNames c.1 = some n ∧ Fits [n] a w.tables ∧
      (Step.outcome (mapComponent contract c.1 c.2 w)).2 = w.tables.extend a ∧
      Waiting contract rest (Step.outcome (mapComponent contract c.1 c.2 w)).2 := by
  obtain ⟨n, hn⟩ := h.components c.1 (Table.mem_keys_of_mem hc)
  obtain ⟨hrest, a, ha, he⟩ := h.enter (List.nodup_cons.mp hd).1 hn
    (growsWith_mapComponent (s := c.2) hn)
  exact ⟨n, a, hn, ha, he, hrest⟩

/-- The components of a pass that were gone through leave the others waiting. -/
theorem Complete.waiting {before rest : List (String × Schema)} {w w' : Workspace}
    (h : Complete contract before w w') (hw : Waiting contract (before ++ rest) w.tables)
    (hsub : ∀ c ∈ before, c ∈ contract.schemas) (hd : (Table.keys (before ++ rest)).Nodup) :
    Waiting contract rest w'.tables := by
  induction h with
  | done => exact hw
  | skip _ _ ih =>
    exact ih hw.skip (fun c hc => hsub c (List.mem_cons_of_mem _ hc)) (List.nodup_cons.mp hd).2
  | enter _ entered _ ih =>
    obtain ⟨-, -, -, -, -, hv⟩ := waiting_mapComponent hw (hsub _ List.mem_cons_self) hd
    rw [entered] at hv
    exact ih hv (fun c hc => hsub c (List.mem_cons_of_mem _ hc)) (List.nodup_cons.mp hd).2

/-- A pass leaves the tables well named, however it ends. -/
theorem wellNamed_mapComponents {components : List (String × Schema)} {w : Workspace}
    (hw : Waiting contract components w.tables) (hsub : ∀ c ∈ components, c ∈ contract.schemas)
    (hd : (Table.keys components).Nodup) :
    WellNamed contract (Step.outcome (mapComponents contract components w)).2 := by
  induction components generalizing w with
  | nil => exact hw.toWellNamed
  | cons c rest ih =>
    have hrest : ∀ d ∈ rest, d ∈ contract.schemas := fun d hd => hsub d (List.mem_cons_of_mem _ hd)
    have hdrest := (List.nodup_cons.mp hd).2
    obtain ⟨n, a, -, ha, he, hv⟩ := waiting_mapComponent hw (hsub c List.mem_cons_self) hd
    rw [mapComponents_cons]
    by_cases hf : Table.has w.tables.failed c.1 = true
    · rw [if_pos hf]
      exact ih hw.skip hrest hdrest
    · rw [if_neg hf]
      cases hm : mapComponent contract c.1 c.2 w with
      | ok u v =>
        rw [hm] at hv
        exact ih hv hrest hdrest
      | error e v =>
        rw [hm] at he hv
        cases e with
        | schema fault location =>
          have hback : v.tables.rollback w.tables.mark = w.tables := by
            rw [show v.tables = w.tables.extend a from he, rollback_extend ha]
          simp only [Step.outcome_ok, markFailed, hback]
          exact hw.toWellNamed.withFailed _
        | _ => exact hv.toWellNamed

theorem wellNamed_buildPasses (distinct : (Table.keys contract.schemas).Nodup) (passes : Nat)
    {w : Workspace} (hw : WellNamed contract w.tables) :
    WellNamed contract (Step.outcome (buildPasses contract passes w)).2 := by
  induction passes generalizing w with
  | zero => exact hw
  | succ passes ih =>
    have hpass := wellNamed_mapComponents (w := { w with tables := startPass contract w.tables })
      (waiting_startPass contract contract.schemas w.tables) (fun _ hc => hc) distinct
    simp only [buildPasses, Step.bind_apply, Step.modifyTables_apply]
    cases hm : mapComponents contract contract.schemas
        { w with tables := startPass contract w.tables } with
    | ok complete v =>
      rw [hm] at hpass
      cases complete with
      | true => exact hpass
      | false => exact ih hpass
    | error e v =>
      rw [hm] at hpass
      exact hpass

theorem wellNamed_buildTables (distinct : (Table.keys contract.schemas).Nodup) {w : Workspace}
    (hw : WellNamed contract w.tables) :
    WellNamed contract (Step.outcome (buildTables contract w)).2 := by
  have hpasses := wellNamed_buildPasses distinct (contract.schemas.length + 1) hw
  simp only [buildTables, Step.bind_apply]
  cases hb : buildPasses contract (contract.schemas.length + 1) w with
  | ok u v =>
    rw [hb] at hpasses
    exact hpasses
  | error e v =>
    rw [hb] at hpasses
    exact hpasses

end Types

end ApiContract
