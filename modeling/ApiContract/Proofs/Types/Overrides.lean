import ApiContract.Proofs.Contract.Parts
import ApiContract.Proofs.Types.Built
import ApiContract.Proofs.Types.Failures

/-! # Existing types that stand for schemas

A node that names an existing type is mapped to that type, whatever else it says. A component
is mapped in the same way, but before that its nodes are looked through for faults, also those
inside of nodes that an existing type stands for. So what is written there makes a component
fail exactly when it is unsupported or refers to a component that failed.
-/
namespace ApiContract

/-- An existing type, given by a text that is not empty, stands for the schema. -/
structure Schema.StandsFor (type : String) (s : Schema) : Prop where
  external : s.external = .text type
  nonempty : type ≠ ""

theorem Schema.StandsFor.isExternal {type : String} {s : Schema} (h : s.StandsFor type) :
    s.isExternal = true := by
  rw [Schema.isExternal, h.external]
  simpa [Tree.isTruthy, Scalar.isTruthy] using h.nonempty

/-- A node that stands in a schema outside of all nodes that an existing type stands for. -/
inductive Schema.Shows : Schema → Schema → Prop
  | self {s : Schema} (plain : s.isExternal = false) : Shows s s
  | part {s p n : Schema} (plain : s.isExternal = false) (part : p ∈ s.parts) (shown : Shows p n) :
      Shows s n

/-- A node that stands in a schema at or below a node that an existing type stands for. -/
def Schema.Hides (s n : Schema) : Prop := ∃ x ∈ s.nodes, x.isExternal = true ∧ n ∈ x.nodes

theorem Schema.Shows.mem_nodes {s n : Schema} (h : s.Shows n) : n ∈ s.nodes := by
  induction h with
  | @self s _ =>
    rw [nodes_eq]
    exact List.mem_cons_self
  | @part s p n _ hp _ ih => exact nodes_subset_of_mem_parts hp ih

theorem Schema.shows_or_hides {s n : Schema} (h : n ∈ s.nodes) : s.Shows n ∨ s.Hides n := by
  induction s using parts_induction with
  | h s ih =>
    by_cases hx : s.isExternal = true
    · exact Or.inr ⟨s, self_mem_nodes s, hx, h⟩
    · have hplain : s.isExternal = false := Bool.not_eq_true _ ▸ hx
      rw [nodes_eq s, List.mem_cons, List.mem_flatMap] at h
      rcases h with rfl | ⟨p, hp, hn⟩
      · exact Or.inl (.self hplain)
      · rcases ih p hp hn with hshown | ⟨x, hmem, hx, hn⟩
        · exact Or.inl (.part hplain hp hshown)
        · exact Or.inr ⟨x, nodes_subset_of_mem_parts hp hmem, hx, hn⟩

namespace Types

open TypeTables

variable {contract : Contract} {F G : String → Prop}

/-- A node that is unsupported or refers to one of the components. -/
def AtFault (F : String → Prop) : Schema → Prop
  | .unsupported .. => True
  | .reference _ target => target ≠ "" ∧ F target
  | _ => False

theorem exists_atFault_iff {s : Schema} :
    (∃ n ∈ s.nodes, AtFault F n) ↔ (unsupportedNode? s).isSome ∨ Refers F s := by
  constructor
  · rintro ⟨n, hn, hfault⟩
    cases n with
    | unsupported notes what =>
      left
      rw [unsupportedNode?, List.findSome?_isSome_iff]
      exact ⟨_, hn, rfl⟩
    | reference location target =>
      right
      refine ⟨target, List.mem_filterMap.mpr ⟨_, hn, ?_⟩, hfault.2⟩
      simp [hfault.1]
    | _ => exact hfault.elim
  · rintro (hsome | ⟨target, htarget, hF⟩)
    · rw [unsupportedNode?, List.findSome?_isSome_iff] at hsome
      obtain ⟨n, hn, hsome⟩ := hsome
      cases n with
      | unsupported => exact ⟨_, hn, trivial⟩
      | _ => cases hsome
    · obtain ⟨n, hn, hname⟩ := List.mem_filterMap.mp htarget
      cases n with
      | reference location name =>
        simp only [Option.ite_none_left_eq_some, Option.some.injEq] at hname
        obtain ⟨hne, rfl⟩ := hname
        exact ⟨_, hn, by simpa using hne, hF⟩
      | _ => cases hname

/-- Failure reaches the components with a node that is at fault. -/
theorem closed_iff : Closed contract F ↔
    ∀ c ∈ contract.schemas, ∀ n ∈ c.2.nodes, AtFault F n → F c.1 := by
  constructor
  · intro h c hc n hn hfault
    rcases exists_atFault_iff.mp ⟨n, hn, hfault⟩ with hu | hr
    · exact h.unsupported c hc hu
    · exact h.references c hc hr
  · intro h
    constructor
    · intro c hc hu
      obtain ⟨n, hn, hfault⟩ := exists_atFault_iff.mpr (Or.inl hu)
      exact h c hc n hn hfault
    · intro c hc hr
      obtain ⟨n, hn, hfault⟩ := exists_atFault_iff.mpr (Or.inr hr)
      exact h c hc n hn hfault

theorem MappableNode.of_subset {P : Schema → Prop} {s : Schema} (h : MappableNode contract F P s)
    (hG : ∀ n, G n → F n) : MappableNode contract G P s := by
  refine h.imp_right fun h => ?_
  cases s with
  | reference location target => exact ⟨fun hn => h.1 (hG target hn), h.2⟩
  | _ => exact h

theorem Mappable.of_subset {level : ℕ} {s : Schema} (h : Mappable contract F level s)
    (hG : ∀ n, G n → F n) : Mappable contract G level s := by
  induction level generalizing s with
  | zero => exact h.elim
  | succ level ih =>
    have hnode : MappableNode contract F (Mappable contract G level) s :=
      MappableNode.mono h fun t ht => ih ht
    exact hnode.of_subset hG

theorem Enterable.of_subset {name : String} {s : Schema} (h : Enterable contract F name s)
    (hG : ∀ n, G n → F n) : Enterable contract G name s := by
  refine h.imp_right fun h => h.imp_right fun h => ?_
  rcases h with ⟨hobject, level, hmerges⟩ | ⟨hobject, level, hmappable⟩
  · exact Or.inl ⟨hobject, level, hmerges.mono fun t ht => ht.of_subset hG⟩
  · exact Or.inr ⟨hobject, level, hmappable.of_subset hG⟩

theorem eq_of_fst_eq (distinct : (Table.keys contract.schemas).Nodup) {c d : String × Schema}
    (hc : c ∈ contract.schemas) (hd : d ∈ contract.schemas) (h : c.1 = d.1) : c = d :=
  List.inj_on_of_nodup_map distinct hc hd h

/-- Such a component fails only over a node that is at fault. Without it the failures would still be
settled. -/
theorem exists_atFault_of_failed (distinct : (Table.keys contract.schemas).Nodup)
    {ds : List Diagnostic} {w w' : Workspace} (built : buildTables contract w = .ok ds w')
    (hw : w.tables.failed = []) (hr : w.tables.resolving = []) {c : String × Schema}
    (hc : c ∈ contract.schemas) (hx : c.2.isExternal = true) (hf : names w'.tables.failed c.1) :
    ∃ n ∈ c.2.nodes, AtFault (names w'.tables.failed) n := by
  obtain ⟨hsettled, hleast⟩ := failed_least built hw hr
  by_contra hnone
  have hwithout : Settled contract fun n => names w'.tables.failed n ∧ n ≠ c.1 := by
    constructor
    · refine closed_iff.mpr fun d hd n hn hfault => ?_
      have hfault' : AtFault (names w'.tables.failed) n := by
        cases n with
        | reference location target => exact ⟨hfault.1, hfault.2.1⟩
        | _ => exact hfault
      refine ⟨closed_iff.mp hsettled.closed d hd n hn hfault', fun he => hnone ?_⟩
      exact ⟨n, eq_of_fst_eq distinct hd hc he ▸ hn, hfault'⟩
    · intro d hd hn
      by_cases he : d.1 = c.1
      · exact Or.inl (eq_of_fst_eq distinct hd hc he ▸ hx)
      · have henterable := hsettled.enterable d hd fun hf => hn ⟨hf, he⟩
        exact henterable.of_subset fun n hn => hn.1
  exact (hleast _ hwithout c.1 hf).2 rfl

/-- Such a component has no entry, neither as itself nor by a name that was derived. -/
theorem notMem_entryNames_of_external (distinct : (Table.keys contract.schemas).Nodup)
    {ds : List Diagnostic} {w w' : Workspace} (built : buildTables contract w = .ok ds w')
    {c : String × Schema} (hc : c ∈ contract.schemas) (hx : c.2.isExternal = true) {n : String}
    (hn : Table.get? w'.tables.typeNames c.1 = some n) : n ∉ w'.tables.entryNames := by
  obtain ⟨-, x, hpasses, ht⟩ := buildTables_eq_ok built
  obtain ⟨u, hlast⟩ := exists_lastPass hpasses
  have hnamed := hlast.consistent.named
  obtain ⟨v, hv, hall⟩ := hlast
  rw [← ht] at hn ⊢
  intro hentry
  have hown : ∀ form : Schema → Bool, (∀ s, form s = true → s.isExternal = false) →
      ¬Promised contract form x.tables n := by
    rintro form hform ⟨d, hd, hds, -, hname⟩
    obtain rfl := eq_of_fst_eq distinct hc hd (hnamed.distinct c.1 d.1 n hn hname)
    exact absurd hx (by simp [hform c.2 hds])
  rcases hall.own_or_derived distinct ⟨_, hv⟩ hentry with (hbean | henum) | hderived
  · exact hown hasBean (fun s h => by simpa using (Bool.and_eq_true_iff.mp h).1) hbean
  · exact hown hasEnum (fun s h => by simpa using (Bool.and_eq_true_iff.mp h).1) henum
  · obtain ⟨d, y, y', hmaps, -, hnew, -⟩ := hderived
    obtain ⟨hwell, -, -, hfirst, hrest, -⟩ := hmaps.appends distinct ⟨_, hv⟩
    rw [hrest.typeNames, hfirst.typeNames] at hn
    exact hnew (hwell.named.taken c.1 n hn)

theorem externalType_of_standsFor {s : Schema} {type : String} (hs : s.StandsFor type)
    (w : Workspace) : externalType s.external w = .ok (.external type) w := by
  rw [hs.external]
  rfl

/-- A reference to such a component gives the type that stands for it, unless it failed. -/
theorem reference_of_standsFor {name location type : String} {s : Schema} {w : Workspace}
    (hs : s.StandsFor type) (hfound : contract.schema? name = some s) {javaName : String}
    (hname : Table.get? w.tables.typeNames name = some javaName)
    (hsound : name ∉ Table.keys w.tables.failed) :
    reference contract name location w = .ok (.external type) w := by
  have hnone : Table.get? w.tables.failed name = none := Table.get?_eq_none_iff.mpr hsound
  simp only [reference, referenceWith, Step.bind_apply, Step.tables_apply, hnone, hfound, hname,
    need, Step.lift, hs.isExternal, if_true, externalType_of_standsFor hs]

theorem reference_of_failed {name location : String} {w : Workspace}
    (hf : name ∈ Table.keys w.tables.failed) :
    ∃ place, reference contract name location w =
      .error (.schema (.dependsOn name place) location) w := by
  obtain ⟨fault, hfault⟩ := Table.exists_get?_of_mem_keys hf
  refine ⟨fault.location, ?_⟩
  simp only [reference, referenceWith, Step.bind_apply, Step.tables_apply, hfault, Step.fail_apply]

/-- A schema that an existing type stands for is mapped to it, whatever is written in it. -/
theorem mapSchema_of_standsFor {s : Schema} {type : String} (hs : s.StandsFor type)
    (owner : String) (role : Scalar) (w : Workspace) :
    mapSchema contract (some s) owner role w = .ok (.external type) w := by
  have hpos : depthBound contract (ownNodes (some s)) ≠ 0 := by
    simp [depthBound]
  obtain ⟨depth, hdepth⟩ := Nat.exists_eq_succ_of_ne_zero hpos
  simp only [mapSchema, hdepth, mapWithin, mapNode, hs.isExternal, if_true,
    externalType_of_standsFor hs]

/-- A set of failures that is settled as far as the nodes outside of all nodes go that an
existing type stands for. -/
structure SettledShown (contract : Contract) (F : String → Prop) : Prop where
  shown : ∀ c ∈ contract.schemas, ∀ n, c.2.Shows n → AtFault F n → F c.1
  enterable : ∀ c ∈ contract.schemas, ¬F c.1 → Enterable contract F c.1 c.2

theorem Settled.shown (h : Settled contract F) : SettledShown contract F where
  shown := fun c hc n hn => closed_iff.mp h.closed c hc n hn.mem_nodes
  enterable := h.enterable

/-- What is written behind an existing type matters by its faults only. -/
theorem SettledShown.settled (h : SettledShown contract F)
    (hidden : ∀ c ∈ contract.schemas, ¬F c.1 → ∀ n, c.2.Hides n → ¬AtFault F n) :
    Settled contract F where
  closed := by
    refine closed_iff.mpr fun c hc n hn hfault => ?_
    by_contra hF
    rcases Schema.shows_or_hides hn with hshown | hhidden
    · exact hF (h.shown c hc n hshown hfault)
    · exact hidden c hc hF n hhidden hfault
  enterable := h.enterable

/-- In built tables a component that an existing type stands for has failed exactly when one
of its nodes is at fault; it has no entry, and references to it give that type unless it has
failed. Any other schema that an existing type stands for is mapped to it in any case. The
failures are settled by the nodes that are shown, and they are in every set that is, unless
nodes that are hidden behind an existing type are at fault. -/
theorem override_of_buildTables (distinct : (Table.keys contract.schemas).Nodup)
    {ds : List Diagnostic} {w : Workspace}
    (built : buildTables contract (.fresh contract) = .ok ds w) :
    ds = failureDiagnostics contract w.tables.failed ∧
    (∀ c ∈ contract.schemas, ∀ type, c.2.StandsFor type →
      (names w.tables.failed c.1 ↔ ∃ n ∈ c.2.nodes, AtFault (names w.tables.failed) n) ∧
      (∀ n, Table.get? w.tables.typeNames c.1 = some n → n ∉ w.tables.entryNames) ∧
      ∀ location v, v.tables.failed = w.tables.failed → v.tables.typeNames = w.tables.typeNames →
        (¬names w.tables.failed c.1 → reference contract c.1 location v = .ok (.external type) v) ∧
        (names w.tables.failed c.1 → ∃ place, reference contract c.1 location v =
          .error (.schema (.dependsOn c.1 place) location) v)) ∧
    (∀ s type, s.StandsFor type → ∀ owner role v,
      mapSchema contract (some s) owner role v = .ok (.external type) v) ∧
    SettledShown contract (names w.tables.failed) ∧
    ∀ F, SettledShown contract F →
      (∀ c ∈ contract.schemas, ¬F c.1 → ∀ n, c.2.Hides n → ¬AtFault F n) →
      ∀ n, names w.tables.failed n → F n := by
  have hfailed : (Workspace.fresh contract).tables.failed = [] := by simp [Workspace.fresh]
  have hresolving : (Workspace.fresh contract).tables.resolving = [] := by simp [Workspace.fresh]
  obtain ⟨hsettled, hleast⟩ := failed_least built hfailed hresolving
  have hwell : WellNamed contract w.tables := by
    have hout := wellNamed_buildTables (w := .fresh contract) distinct (wellNamed_reset {} contract)
    rwa [built] at hout
  refine ⟨(buildTables_eq_ok built).1, ?_, ?_, hsettled.shown, ?_⟩
  · intro c hc type hs
    have hx := hs.isExternal
    refine ⟨⟨?_, ?_⟩, fun n => notMem_entryNames_of_external distinct built hc hx, ?_⟩
    · exact exists_atFault_of_failed distinct built hfailed hresolving hc hx
    · rintro ⟨n, hn, hfault⟩
      exact closed_iff.mp hsettled.closed c hc n hn hfault
    · intro location v hf hnames
      obtain ⟨javaName, hname⟩ := hwell.components c.1 (Table.mem_keys_of_mem hc)
      refine ⟨fun hsound => ?_, fun hfail => reference_of_failed (hf.symm ▸ hfail)⟩
      exact reference_of_standsFor hs (Table.get?_of_mem distinct hc) (hnames.symm ▸ hname)
        (hf.symm ▸ hsound)
  · exact fun s type hs owner role v => mapSchema_of_standsFor hs owner role v
  · exact fun F hF hidden => hleast F (hF.settled hidden)

/-- Money and pets are of existing types, and so is the pet of an owner; only what is written
of money is supported. -/
def shelterDocument : Tree :=
  let pet : Tree := .map [
    (.text "oneOf", .list [.map [(.text "type", .text "string")]]),
    (.text "x-codegen-type", .text "com.acme.Pet")]
  .map [
    (.text "openapi", .text "3.0.0"),
    (.text "paths", .map []),
    (.text "components", .map [(.text "schemas", .map [
      (.text "Money", .map [
        (.text "type", .text "object"),
        (.text "properties", .map [(.text "amount", .map [(.text "type", .text "integer")])]),
        (.text "x-codegen-type", .text "com.acme.Money")]),
      (.text "Pet", pet),
      (.text "Owner", .map [
        (.text "type", .text "object"),
        (.text "properties", .map [(.text "pet", pet)])])])])]

/-- The name of the existing type that stands for a component. -/
def standsFor? (contract : Contract) (name : String) : Option String :=
  (contract.schema? name).bind fun s => s.external.text?

theorem standsFor_of_eq_some {name type : String} (h : standsFor? contract name = some type)
    (hne : type ≠ "") : ∃ s, contract.schema? name = some s ∧ s.StandsFor type := by
  obtain ⟨s, hs, htext⟩ := Option.bind_eq_some_iff.mp h
  exact ⟨s, hs, Tree.text?_eq_some.mp htext, hne⟩

/-- The shelter, with its built tables. -/
theorem exists_shelter : ∃ contract ds w, Contract.ofTree shelterDocument = .ok contract ∧
    buildTables contract (.fresh contract) = .ok ds w ∧
    Table.keys contract.schemas = ["Money", "Pet", "Owner"] ∧
    standsFor? contract "Money" = some "com.acme.Money" ∧
    standsFor? contract "Pet" = some "com.acme.Pet" ∧
    Table.keys w.tables.failed = ["Pet", "Owner"] := by
  obtain ⟨contract, parsed, hcontract⟩ := Outcome.exists_of_map_toOption
    (o := Contract.ofTree shelterDocument)
    (f := fun c => (Table.keys c.schemas, standsFor? c "Money", standsFor? c "Pet",
      ((Step.outcome (buildTables c (.fresh c))).1.toOption.map List.length,
        Table.keys (Step.outcome (buildTables c (.fresh c))).2.failed)))
    (b := (["Money", "Pet", "Owner"], some "com.acme.Money", some "com.acme.Pet",
      (some 2, ["Pet", "Owner"])))
    (by decide +kernel)
  simp only [Prod.mk.injEq] at hcontract
  obtain ⟨hkeys, hmoney, hpet, hlength, hfailed⟩ := hcontract
  obtain ⟨ds, w, built, -⟩ := Step.exists_of_outcome hlength
  rw [built] at hfailed
  exact ⟨contract, ds, w, parsed, built, hkeys, hmoney, hpet, hfailed⟩

theorem override_of_buildTables_shelter :
    ∃ contract ds w, Contract.ofTree shelterDocument = .ok contract ∧
      (Table.keys contract.schemas).Nodup ∧
      buildTables contract (.fresh contract) = .ok ds w ∧
      Table.keys w.tables.failed = ["Pet", "Owner"] ∧
      ∀ location, reference contract "Money" location w = .ok (.external "com.acme.Money") w := by
  obtain ⟨contract, ds, w, parsed, built, hkeys, hmoney, -, hfailed⟩ := exists_shelter
  have distinct : (Table.keys contract.schemas).Nodup := by
    rw [hkeys]
    decide
  obtain ⟨s, hfound, hs⟩ := standsFor_of_eq_some hmoney (by decide)
  obtain ⟨-, hcomponents, -⟩ := override_of_buildTables distinct built
  obtain ⟨-, -, hreference⟩ := hcomponents _ (Table.mem_of_get? hfound) _ hs
  refine ⟨contract, ds, w, parsed, distinct, built, hfailed, fun location => ?_⟩
  refine (hreference location w rfl rfl).1 ?_
  rw [names, hfailed]
  simp

/-- A component that an existing type stands for fails over what is written in it, and so does
one around it, while the same schema is mapped without a fault elsewhere. -/
theorem override_not_applied :
    ∃ contract ds w s, Contract.ofTree shelterDocument = .ok contract ∧
      buildTables contract (.fresh contract) = .ok ds w ∧
      contract.schema? "Pet" = some s ∧ s.StandsFor "com.acme.Pet" ∧
      Table.keys w.tables.failed = ["Pet", "Owner"] ∧
      (∀ location, ∃ place, reference contract "Pet" location w =
        .error (.schema (.dependsOn "Pet" place) location) w) ∧
      ∀ owner role, mapSchema contract (some s) owner role w =
        .ok (.external "com.acme.Pet") w := by
  obtain ⟨contract, ds, w, parsed, built, -, -, hpet, hfailed⟩ := exists_shelter
  obtain ⟨s, hfound, hs⟩ := standsFor_of_eq_some hpet (by decide)
  have hmem : "Pet" ∈ Table.keys w.tables.failed := by
    rw [hfailed]
    decide
  exact ⟨contract, ds, w, s, parsed, built, hfound, hs, hfailed,
    fun location => reference_of_failed hmem,
    fun owner role => mapSchema_of_standsFor hs owner role w⟩

end Types

end ApiContract
