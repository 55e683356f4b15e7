import ApiContract.Proofs.Types.Inversion
import ApiContract.Proofs.Types.Reservation

/-! # Passes over the components

The tables that are built in the end come from one complete pass, which started from
tables with nothing but reserved names and entered every component that had not failed
before. The passes before it leave no trace except for the failed components.
-/
namespace ApiContract

namespace TypeTables

/-- What mapping leaves alone: the names of the components, their failures, the
aliases under way, and the names given out before. -/
structure Frame (t t' : TypeTables) : Prop where
  typeNames : t'.typeNames = t.typeNames
  failed : t'.failed = t.failed
  resolving : t'.resolving = t.resolving
  taken : ∀ n ∈ t.taken, n ∈ t'.taken

theorem Frame.refl (t : TypeTables) : t.Frame t := ⟨rfl, rfl, rfl, fun _ h => h⟩

theorem Frame.trans {t u v : TypeTables} (htu : t.Frame u) (huv : u.Frame v) : t.Frame v where
  typeNames := huv.typeNames.trans htu.typeNames
  failed := huv.failed.trans htu.failed
  resolving := huv.resolving.trans htu.resolving
  taken := fun n h => huv.taken n (htu.taken n h)

theorem Frame.named {t t' : TypeTables} (h : t.Frame t') (ht : t.Named) : t'.Named :=
  ht.of_typeNames h.typeNames h.taken

theorem frame_extend (t : TypeTables) (a : Addition) : t.Frame (t.extend a) :=
  ⟨rfl, rfl, rfl, fun _ h => List.mem_append_right _ h⟩

theorem Grows.frame {t t' : TypeTables} (h : t.Grows t') (ht : t.Reserved) : t.Frame t' := by
  obtain ⟨a, -, rfl⟩ := h ht
  exact frame_extend t a

/-- Tables whose entries and components all have names that were given out. -/
structure Consistent (t : TypeTables) : Prop where
  reserved : t.Reserved
  named : t.Named

theorem Blank.consistent {t : TypeTables} (ht : t.Blank) : t.Consistent :=
  ⟨ht.reserved, ht.named⟩

end TypeTables

namespace Types

open TypeTables

variable {contract : Contract}

theorem frame_withBean (t : TypeTables) (bean : Bean) : t.Frame (withBean t bean) :=
  ⟨rfl, rfl, rfl, fun _ h => h⟩

theorem frame_withEnum (t : TypeTables) (enum : EnumType) : t.Frame (withEnum t enum) :=
  ⟨rfl, rfl, rfl, fun _ h => h⟩

theorem reserved_withBean {t : TypeTables} {bean : Bean} (ht : t.Reserved)
    (hb : bean.name ∈ t.taken) : (withBean t bean).Reserved := by
  intro n hn
  rcases List.mem_append.mp hn with hn | hn
  · rcases Table.mem_keys_put.mp hn with rfl | hn
    · exact hb
    · exact ht n (List.mem_append_left _ hn)
  · exact ht n (List.mem_append_right _ hn)

theorem reserved_withEnum {t : TypeTables} {enum : EnumType} (ht : t.Reserved)
    (he : enum.name ∈ t.taken) : (withEnum t enum).Reserved := by
  intro n hn
  rcases List.mem_append.mp hn with hn | hn
  · exact ht n (List.mem_append_left _ hn)
  · rcases Table.mem_keys_put.mp hn with rfl | hn
    · exact he
    · exact ht n (List.mem_append_right _ hn)

/-- What entering a component under a name does to the tables. -/
inductive Enters (javaName : String) (t : TypeTables) : TypeTables → Prop
  | parts {t' : TypeTables} (grows : t.Grows t') : Enters javaName t t'
  | bean {u : TypeTables} {bean : Bean} (grows : t.Grows u) (name : bean.name = javaName) :
      Enters javaName t (withBean u bean)
  | enum {u : TypeTables} {enum : EnumType} (grows : t.Grows u) (name : enum.name = javaName) :
      Enters javaName t (withEnum u enum)

theorem Entered.enters {component javaName : String} {s : Schema} {w w' : Workspace}
    (h : Entered contract component javaName w s w') : Enters javaName w.tables w'.tables := by
  cases h with
  | external => exact .parts (Grows.refl _)
  | object _ _ built =>
    obtain ⟨merged, fields, v, -, hf, ht⟩ := buildBean_eq_ok built
    rw [ht]
    exact .bean ((keeps_beanFields (growing_mapWithin _) _ _ _).of_ok hf) rfl
  | enumeration built =>
    rw [buildEnum_eq_ok built]
    exact .enum (Grows.refl _) rfl
  | aliased _ _ _ referred =>
    exact .parts ((keeps_referenceWith (growing_mapWithin _) _ _).of_ok referred)

theorem Enters.frame {javaName : String} {t t' : TypeTables} (h : Enters javaName t t')
    (ht : t.Reserved) : t.Frame t' := by
  cases h with
  | parts grows => exact grows.frame ht
  | bean grows => exact (grows.frame ht).trans (frame_withBean _ _)
  | enum grows => exact (grows.frame ht).trans (frame_withEnum _ _)

theorem Enters.reserved {javaName : String} {t t' : TypeTables} (h : Enters javaName t t')
    (ht : t.Reserved) (hn : javaName ∈ t.taken) : t'.Reserved := by
  cases h with
  | parts grows => exact grows.reserved ht
  | bean grows name =>
    exact reserved_withBean (grows.reserved ht) (name ▸ (grows.frame ht).taken _ hn)
  | enum grows name =>
    exact reserved_withEnum (grows.reserved ht) (name ▸ (grows.frame ht).taken _ hn)

theorem consistent_of_mapComponent {component : String} {s : Schema} {w w' : Workspace}
    (ht : w.tables.Consistent) (h : mapComponent contract component s w = .ok () w') :
    w.tables.Frame w'.tables ∧ w'.tables.Consistent := by
  obtain ⟨javaName, hname, hentered⟩ := entered_of_eq_ok h
  have hframe := hentered.enters.frame ht.reserved
  have htaken := ht.named.taken component javaName hname
  exact ⟨hframe, hentered.enters.reserved ht.reserved htaken, hframe.named ht.named⟩

/-- A pass over components in which every component that had not failed was entered. -/
inductive Complete (contract : Contract) :
    List (String × Schema) → Workspace → Workspace → Prop
  | done {w : Workspace} : Complete contract [] w w
  | skip {name : String} {s : Schema} {rest : List (String × Schema)} {w w' : Workspace}
      (failed : name ∈ Table.keys w.tables.failed) (others : Complete contract rest w w') :
      Complete contract ((name, s) :: rest) w w'
  | enter {name : String} {s : Schema} {rest : List (String × Schema)} {w v w' : Workspace}
      (sound : name ∉ Table.keys w.tables.failed)
      (entered : mapComponent contract name s w = .ok () v)
      (others : Complete contract rest v w') : Complete contract ((name, s) :: rest) w w'

def markFailed (mark : Mark) (name : String) (fault : Fault) (t : TypeTables) : TypeTables :=
  let back := t.rollback mark
  { back with failed := Table.put back.failed name ⟨.inComponent name fault.fault, fault.location⟩ }

theorem mapComponents_cons (c : String × Schema) (rest : List (String × Schema)) (w : Workspace) :
    mapComponents contract (c :: rest) w =
      if Table.has w.tables.failed c.1 then mapComponents contract rest w
      else match mapComponent contract c.1 c.2 w with
        | .ok _ v => mapComponents contract rest v
        | .error (.schema fault location) v =>
          .ok false
            { v with tables := markFailed w.tables.mark c.1 ⟨fault, location⟩ v.tables,
                     log := v.log.push (.componentFailed c.1 fault.kind) }
        | .error e v => .error e v := by
  simp only [mapComponents, Step.bind_apply, Step.tables_apply]
  split
  · rfl
  · simp only [Step.bind_apply, Step.attempt]
    cases hm : mapComponent contract c.1 c.2 w with
    | ok => rfl
    | error e => cases e <;> rfl

/-- A pass that is cut short: the component at which it ended, and what came before. -/
structure CutShort (contract : Contract) (components : List (String × Schema))
    (w w' : Workspace) (name : String) (s : Schema) (v : Workspace) : Prop where
  member : (name, s) ∈ components
  before : ∃ entered, (∀ e ∈ entered, e ∈ components) ∧ Complete contract entered w v
  sound : name ∉ Table.keys v.tables.failed
  failure : ∃ fault location u,
    mapComponent contract name s v = .error (.schema fault location) u ∧
      w'.tables = markFailed v.tables.mark name ⟨fault, location⟩ u.tables

/-- A pass is complete, or it ends at the first component that fails. -/
theorem mapComponents_eq_ok {components : List (String × Schema)} {complete : Bool}
    {w w' : Workspace} (h : mapComponents contract components w = .ok complete w') :
    (complete = true ∧ Complete contract components w w') ∨
      (complete = false ∧ ∃ name s v, CutShort contract components w w' name s v) := by
  induction components generalizing w with
  | nil =>
    cases h
    exact Or.inl ⟨rfl, .done⟩
  | cons component rest ih =>
    obtain ⟨name, s⟩ := component
    rw [mapComponents_cons] at h
    by_cases hf : Table.has w.tables.failed name = true
    · rw [if_pos hf] at h
      rcases ih h with ⟨hc, hall⟩ | ⟨hc, name', s', v, hcut⟩
      · exact Or.inl ⟨hc, .skip (Table.has_iff.mp hf) hall⟩
      · obtain ⟨entered, hsub, hbefore⟩ := hcut.before
        exact Or.inr ⟨hc, name', s', v,
          { hcut with
            member := List.mem_cons_of_mem _ hcut.member
            before := ⟨entered, fun e he => List.mem_cons_of_mem _ (hsub e he), hbefore⟩ }⟩
    · rw [if_neg hf] at h
      have hsound : name ∉ Table.keys w.tables.failed := fun hk => hf (Table.has_iff.mpr hk)
      cases hmap : mapComponent contract name s w with
      | ok u v =>
        rw [hmap] at h
        rcases ih h with ⟨hc, hall⟩ | ⟨hc, name', s', x, hcut⟩
        · exact Or.inl ⟨hc, .enter hsound hmap hall⟩
        · obtain ⟨entered, hsub, hbefore⟩ := hcut.before
          exact Or.inr ⟨hc, name', s', x,
            { hcut with
              member := List.mem_cons_of_mem _ hcut.member
              before := ⟨(name, s) :: entered, List.cons_subset_cons _ hsub,
                .enter hsound hmap hbefore⟩ }⟩
      | error e v =>
        rw [hmap] at h
        cases e with
        | schema fault location =>
          cases h
          exact Or.inr ⟨rfl, name, s, w,
            { member := List.mem_cons_self
              before := ⟨[], by simp, .done⟩
              sound := hsound
              failure := ⟨fault, location, v, hmap, rfl⟩ }⟩
        | _ => cases h

theorem Complete.consistent {components : List (String × Schema)} {w w' : Workspace}
    (h : Complete contract components w w') (ht : w.tables.Consistent) :
    w.tables.Frame w'.tables ∧ w'.tables.Consistent := by
  induction h with
  | done => exact ⟨Frame.refl _, ht⟩
  | skip _ _ ih => exact ih ht
  | enter _ entered _ ih =>
    obtain ⟨hframe, ht⟩ := consistent_of_mapComponent ht entered
    obtain ⟨hrest, ht⟩ := ih ht
    exact ⟨hframe.trans hrest, ht⟩

/-- A pass that is cut short marks one component, which was not marked before. -/
theorem CutShort.failed {components : List (String × Schema)} {w w' : Workspace} {name : String}
    {s : Schema} {v : Workspace} (h : CutShort contract components w w' name s v)
    (ht : w.tables.Consistent) :
    name ∉ Table.keys w.tables.failed ∧ w'.tables.resolving = w.tables.resolving ∧
      ∃ fault, w'.tables.failed = Table.put w.tables.failed name fault := by
  obtain ⟨entered, -, hbefore⟩ := h.before
  obtain ⟨hframe, hv⟩ := hbefore.consistent ht
  obtain ⟨fault, location, u, hfail, hw'⟩ := h.failure
  have hgrows := (grows_of_mapComponent_eq_error hfail).frame hv.reserved
  refine ⟨hframe.failed ▸ h.sound, ?_, ⟨.inComponent name fault, location⟩, ?_⟩
  · rw [hw']
    exact hgrows.resolving.trans hframe.resolving
  · rw [hw', ← hframe.failed, ← hgrows.failed]
    rfl

/-- The pass that the tables come from. -/
def LastPass (contract : Contract) (w w' : Workspace) : Prop :=
  ∃ v, v.tables = startPass contract w.tables ∧ Complete contract contract.schemas v w'

theorem exists_lastPass {passes : Nat} {w w' : Workspace}
    (h : buildPasses contract passes w = .ok () w') : ∃ v, LastPass contract v w' := by
  induction passes generalizing w with
  | zero => cases h
  | succ passes ih =>
    obtain ⟨⟨⟩, u, hstart, h⟩ := Step.bind_eq_ok.mp h
    cases hstart
    obtain ⟨complete, v, hpass, h⟩ := Step.bind_eq_ok.mp h
    rcases mapComponents_eq_ok hpass with ⟨rfl, hall⟩ | ⟨rfl, -⟩
    · cases h
      exact ⟨w, _, rfl, hall⟩
    · exact ih h

theorem LastPass.consistent {w w' : Workspace} (h : LastPass contract w w') :
    w'.tables.Consistent := by
  obtain ⟨v, hv, hall⟩ := h
  exact (hall.consistent (hv ▸ (blank_startPass contract w.tables).consistent)).2

theorem failureDiagnostics_length (contract : Contract) (failed : Failed) :
    (failureDiagnostics contract failed).length =
      contract.schemas.countP fun e => Table.has failed e.1 := by
  unfold failureDiagnostics
  induction contract.schemas with
  | nil => rfl
  | cons e rest ih =>
    cases hf : Table.get? failed e.1 with
    | none =>
      have hn : Table.has failed e.1 = false :=
        Table.has_eq_false_iff.mpr (Table.get?_eq_none_iff.mp hf)
      simp [hf, hn, ih]
    | some fault =>
      have hy : Table.has failed e.1 = true := Table.has_iff.mpr (Table.mem_keys_of_get? hf)
      simp [hf, hy, ih]

theorem buildTables_eq_ok {ds : List Diagnostic} {w w' : Workspace}
    (h : buildTables contract w = .ok ds w') :
    ds = failureDiagnostics contract w'.tables.failed ∧
      ∃ v, buildPasses contract (contract.schemas.length + 1) w = .ok () v ∧
        v.tables = w'.tables := by
  obtain ⟨⟨⟩, v, hpasses, h⟩ := Step.bind_eq_ok.mp h
  cases h
  exact ⟨rfl, v, hpasses, rfl⟩

section Uniform
variable {P : ∀ α : Type, Step α → Prop} (hP : Step.Uniform P)
include hP

theorem mapComponent_of (component : String) (s : Schema) :
    P Unit (mapComponent contract component s) := by
  refine hP.bind hP.tables fun t => ?_
  refine hP.bind (hP.lift (.need rfl _)) fun javaName => ?_
  split
  · exact hP.pure _
  · split
    · exact buildBean_of hP (mapWithin_of hP _) _ _
    · exact buildEnum_of hP _ _ _
    · exact hP.map (referenceWith_of hP (mapWithin_of hP _) _ _) _

theorem mapComponents_of (components : List (String × Schema)) :
    P Bool (mapComponents contract components) := by
  induction components with
  | nil => exact hP.pure _
  | cons component rest ih =>
    refine hP.bind hP.tables fun t => ?_
    split
    · exact ih
    · refine hP.bind (hP.attempt (mapComponent_of hP _ _)) fun result => ?_
      cases result with
      | ok => exact ih
      | error fault =>
        exact hP.map (hP.bind (hP.modifyTables _) fun _ => hP.record _) _

theorem buildTables_of : P (List Diagnostic) (buildTables contract) := by
  have hpasses : ∀ passes, P Unit (buildPasses contract passes) := by
    intro passes
    induction passes with
    | zero => exact hP.fail rfl
    | succ passes ih =>
      refine hP.bind (hP.modifyTables _) fun _ => ?_
      refine hP.bind (mapComponents_of hP _) fun complete => ?_
      split
      · exact hP.pure _
      · exact ih
  refine hP.bind (hpasses _) fun _ => ?_
  refine hP.bind hP.tables fun t => ?_
  exact hP.map (hP.record _) _

end Uniform

theorem consistent_of_buildTables {ds : List Diagnostic} {w w' : Workspace}
    (h : buildTables contract w = .ok ds w') : w'.tables.Consistent := by
  obtain ⟨-, v, hpasses, ht⟩ := buildTables_eq_ok h
  obtain ⟨u, hlast⟩ := exists_lastPass hpasses
  exact ht ▸ hlast.consistent

end Types

end ApiContract
