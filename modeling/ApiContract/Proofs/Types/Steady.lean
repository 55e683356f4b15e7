import ApiContract.Proofs.Contract.Parts
import ApiContract.Proofs.Types.Built
import ApiContract.Proofs.Yields

/-! # Mapping that enters nothing

After the tables are built, all that is still entered stands behind what they hold, and no
lookup of a component finds anything else than before. A schema in which nothing needs a type
of its own is then mapped by such lookups alone: the aliases that it comes to are known, so
that its type is the same in all later tables, which stay as they are.
-/
namespace ApiContract

namespace Step

variable {α β : Type} {I : TypeTables → Prop} {step : Step α}

/-- From all tables with the invariant the step ends the same way and leaves them as they are. -/
def Steady (I : TypeTables → Prop) (step : Step α) : Prop :=
  ∃ o : Outcome α, ∀ w, I w.tables → outcome (step w) = (o, w.tables)

namespace Steady

theorem pure (a : α) : Steady I (Pure.pure a : Step α) := ⟨.ok a, fun _ _ => rfl⟩

theorem fail (e : Failure) : Steady I (Step.fail e : Step α) := ⟨.error e, fun _ _ => rfl⟩

theorem record (event : Event) : Steady I (Step.record event) := ⟨.ok (), fun _ _ => rfl⟩

theorem lift (o : Outcome α) : Steady I (Step.lift o) := by
  refine ⟨o, fun w _ => ?_⟩
  cases o <;> rfl

/-- What follows a steady step has to be steady for the values that the step comes to. -/
theorem bind_yields {P : α → Prop} {f : α → Step β} (hx : Steady I step)
    (hy : Yields I (fun _ => false) P step) (hf : ∀ a, P a → Steady I (f a)) :
    Steady I (step >>= f) := by
  obtain ⟨o, ho⟩ := hx
  by_cases hI : ∃ w : Workspace, I w.tables
  · obtain ⟨w₀, hw₀⟩ := hI
    cases o with
    | error e =>
      refine ⟨.error e, fun w hw => ?_⟩
      have hw := ho w hw
      rw [bind_apply]
      cases hs : step w with
      | ok a v => simp [hs] at hw
      | error e' v => simpa [hs] using hw
    | ok a =>
      have ha := (hy w₀ hw₀).1
      rw [ho w₀ hw₀] at ha
      obtain ⟨o', ho'⟩ := hf a ha
      refine ⟨o', fun w hw => ?_⟩
      have hfirst := ho w hw
      rw [bind_apply]
      cases hs : step w with
      | error e v => simp [hs] at hfirst
      | ok b v =>
        rw [hs, outcome_ok, Prod.mk.injEq] at hfirst
        obtain ⟨hb, htables⟩ := hfirst
        cases hb
        rw [← htables]
        exact ho' v (htables ▸ hw)
  · exact ⟨.error .missing, fun w hw => absurd ⟨w, hw⟩ hI⟩

theorem guards (hx : Steady I step) : Guards I (fun _ => false) step := by
  obtain ⟨o, ho⟩ := hx
  intro w hw
  rw [ho w hw]
  cases o with
  | ok a => exact ⟨trivial, hw⟩
  | error e => exact ⟨rfl, hw⟩

theorem compositional : Compositional fun _ step => Steady I step where
  pure := pure
  lift := fun _ => lift _
  fail := fun _ => fail _
  record := record
  bind := fun hx hf => hx.bind_yields hx.guards fun a _ => hf a

theorem threaded :
    Threaded (fun _ => false) fun _ Q step => Steady I step ∧ Yields I (fun _ => false) Q step where
  pure := fun ha => ⟨.pure _, .pure ha⟩
  lift := fun ho => ⟨.lift _, .lift ho⟩
  fail := fun _ => ⟨.fail _, .fail rfl⟩
  record := fun event => ⟨.record event, .record event⟩
  bind := fun hx hf => ⟨hx.1.bind_yields hx.2 fun a ha => (hf a ha).1,
    hx.2.bind fun a ha => (hf a ha).2⟩

/-- What a steady step ends with can be had from any of the tables. -/
theorem outcome_eq (h : Steady I step) {v w : Workspace} (hv : I v.tables) (hw : I w.tables) :
    outcome (step w) = ((outcome (step v)).1, w.tables) := by
  obtain ⟨o, ho⟩ := h
  rw [ho w hw, ho v hv]

/-- A step that reads the tables is steady if it goes on from all of them as from some. -/
theorem read {f : TypeTables → Step α} (t : TypeTables) (h : ∀ u, I u → f u = f t)
    (hstep : Steady I (f t)) : Steady I (Step.tables >>= f) := by
  obtain ⟨o, ho⟩ := hstep
  refine ⟨o, fun w hw => ?_⟩
  have hread : (Step.tables >>= f) w = f t w := by
    rw [← h w.tables hw]
    rfl
  rw [hread]
  exact ho w hw

end Steady

end Step

namespace Schema

/-- Mapped by itself, the node gets a name of its own and an entry under it. -/
def needsEntry : Schema → Bool
  | enumeration .. => true
  | object _ properties _ members => !(properties.isEmpty && members.isEmpty)
  | _ => false

/-- No node of the schema needs an entry; what its references lead to may have some. -/
def Entryless (s : Schema) : Prop := ∀ n ∈ s.nodes, n.needsEntry = false

theorem Entryless.part {s p : Schema} (h : s.Entryless) (hp : p ∈ s.parts) : p.Entryless :=
  fun n hn => h n (nodes_subset_of_mem_parts hp hn)

end Schema

namespace TypeTables

variable {t t' u : TypeTables}

/-- What lookups of components find in the tables, they find in the later ones. -/
structure Lasts (t t' : TypeTables) : Prop extends Frame t t' where
  aliases : ∀ name type, Table.get? t.aliases name = some type →
    Table.get? t'.aliases name = some type

theorem Lasts.refl (t : TypeTables) : t.Lasts t := ⟨Frame.refl t, fun _ _ h => h⟩

theorem Lasts.trans (h : t.Lasts u) (h' : u.Lasts t') : t.Lasts t' :=
  ⟨h.toFrame.trans h'.toFrame, fun name type ha => h'.aliases name type (h.aliases name type ha)⟩

theorem Grows.lasts (h : t.Grows t') (ht : t.Reserved) : t.Lasts t' := by
  obtain ⟨a, -, rfl⟩ := h ht
  refine ⟨frame_extend t a, fun name type hname => ?_⟩
  obtain ⟨e, he, rfl⟩ := Option.map_eq_some_iff.mp hname
  rw [extend_aliases, Table.get?, List.find?_append, he, Option.some_or, Option.map_some]

theorem rollback_mark (t : TypeTables) : t.rollback t.mark = t := by
  simpa using rollback_extend (Addition.fits_nil [] t)

end TypeTables

namespace Types

open TypeTables

variable {contract : Contract} {components : List (String × Schema)} {v w : Workspace}

theorem Enters.lasts {javaName : String} {t t' : TypeTables} (h : Enters javaName t t')
    (ht : t.Reserved) : t.Lasts t' := by
  cases h with
  | parts grows => exact grows.lasts ht
  | bean grows => exact (grows.lasts ht).trans ⟨frame_withBean _ _, fun _ _ h => h⟩
  | enum grows => exact (grows.lasts ht).trans ⟨frame_withEnum _ _, fun _ _ h => h⟩

theorem Complete.lasts (h : Complete contract components v w) (hv : v.tables.Consistent) :
    v.tables.Lasts w.tables := by
  induction h with
  | done => exact Lasts.refl _
  | skip _ _ ih => exact ih hv
  | enter _ entered _ ih =>
    obtain ⟨javaName, -, hentered⟩ := entered_of_eq_ok entered
    obtain ⟨-, hx⟩ := consistent_of_mapComponent hv entered
    exact (hentered.enters.lasts hv.reserved).trans (ih hx)

/-- The component has a type that is neither an entry of its own nor given by its name. -/
structure IsAlias (contract : Contract) (name : String) (s : Schema) : Prop where
  found : contract.schema? name = some s
  own : s.isExternal = false
  noObject : s.isObject = false
  noEnumeration : s.isEnumeration = false

/-- Every alias that has not failed has its type. -/
def AliasesKnown (contract : Contract) (t : TypeTables) : Prop :=
  ∀ name s, IsAlias contract name s → name ∉ Table.keys t.failed →
    ∃ type, Table.get? t.aliases name = some type

theorem get?_of_resolveAlias {map : Mapping} {name javaName location : String} {s : Schema}
    {type : TypeRef} (h : resolveAlias map name javaName location s v = .ok type w) :
    Table.get? w.tables.aliases name = some type := by
  rcases resolveAlias_cases map name javaName location s v with
    ⟨known, hknown, hr⟩ | ⟨-, hr⟩ | ⟨-, -, ⟨mapped, u, -, hr⟩ | ⟨e, u, -, hr⟩⟩
  · cases h.symm.trans hr
    exact hknown
  · cases h.symm.trans hr
  · cases h.symm.trans hr
    exact Table.get?_put_self _ _ _
  · cases h.symm.trans hr

theorem IsAlias.known_of_mapComponent {name : String} {s : Schema} (h : IsAlias contract name s)
    (mapped : mapComponent contract name s v = .ok () w) :
    ∃ type, Table.get? w.tables.aliases name = some type := by
  obtain ⟨javaName, -, hentered⟩ := entered_of_eq_ok mapped
  cases hentered with
  | external external => cases h.own.symm.trans external
  | object _ object _ => cases h.noObject.symm.trans object
  | enumeration _ => cases h.noEnumeration
  | aliased _ _ _ referred =>
    obtain ⟨-, hreferred⟩ := referred_of_eq_ok referred
    cases hreferred with
    | external found external =>
      cases h.found.symm.trans found
      cases h.own.symm.trans external
    | bean found _ object _ =>
      cases h.found.symm.trans found
      cases h.noObject.symm.trans object
    | enum found _ enumeration _ =>
      cases h.found.symm.trans found
      cases h.noEnumeration.symm.trans enumeration
    | aliased _ resolved => exact ⟨_, get?_of_resolveAlias resolved⟩

theorem Maps.lasts {c : String × Schema} {u u' : Workspace}
    (h : Maps contract components v w c u u') (hv : v.tables.Consistent) :
    u'.tables.Lasts w.tables := by
  obtain ⟨before, after, -, hbefore, hafter⟩ := h.position
  obtain ⟨-, hu⟩ := hbefore.consistent hv
  exact hafter.lasts (consistent_of_mapComponent hu h.mapped).2

/-- A pass that comes to the end has mapped every alias that did not fail. -/
theorem aliasesKnown_of_buildTables {ds : List Diagnostic}
    (h : buildTables contract v = .ok ds w) : AliasesKnown contract w.tables := by
  obtain ⟨-, w', hpasses, ht⟩ := buildTables_eq_ok h
  obtain ⟨u, start, hstart, hall⟩ := exists_lastPass hpasses
  have hconsistent : start.tables.Consistent :=
    hstart ▸ (blank_startPass contract u.tables).consistent
  obtain ⟨hframe, -⟩ := hall.consistent hconsistent
  intro name s halias hsound
  rw [← ht] at hsound ⊢
  obtain ⟨x, x', hmaps⟩ := hall.exists_maps hconsistent (Table.mem_of_get? halias.found)
    (hframe.failed ▸ hsound)
  obtain ⟨type, htype⟩ := halias.known_of_mapComponent hmaps.mapped
  exact ⟨type, (hmaps.lasts hconsistent).aliases name type htype⟩

variable {t : TypeTables} {map : Mapping}

theorem steady_externalType {I : TypeTables → Prop} (name : Tree) :
    Step.Steady I (externalType name) := .lift _

/-- A reference is looked up, whatever else is in the tables by then. -/
theorem steady_referenceWith (known : AliasesKnown contract t) (map : Mapping)
    (name location : String) :
    Step.Steady t.Lasts (referenceWith contract map name location) := by
  unfold referenceWith
  refine .read t (fun u hu => by rw [hu.failed, hu.typeNames]) ?_
  cases hfailed : Table.get? t.failed name with
  | some fault => exact .fail _
  | none =>
    have hsound := Table.get?_eq_none_iff.mp hfailed
    refine (Step.Steady.lift _).bind_yields (.lift (.need fun _ => rfl)) fun s hs => ?_
    refine Step.Steady.compositional.bind (.lift _) fun javaName => ?_
    split
    · exact steady_externalType _
    · next hown =>
      have halias : s.isObject = false → s.isEnumeration = false →
          Step.Steady t.Lasts (resolveAlias map name javaName location s) := by
        intro noObject noEnumeration
        obtain ⟨type, htype⟩ :=
          known name s ⟨hs, Bool.not_eq_true _ ▸ hown, noObject, noEnumeration⟩ hsound
        unfold resolveAlias
        refine .read t (fun u hu => by rw [hu.aliases name type htype, htype]) ?_
        rw [htype]
        exact .pure type
      cases s with
      | object => exact .pure _
      | enumeration => exact .pure _
      | _ => exact halias rfl rfl

theorem steady_mapNode (known : AliasesKnown contract t)
    (hmap : ∀ s owner role, s.Entryless → Step.Steady t.Lasts (map (some s) owner role))
    {schema : Option Schema} (hs : ∀ s, schema = some s → s.Entryless) (owner : String)
    (role : Scalar) : Step.Steady t.Lasts (mapNode contract map schema owner role) := by
  cases schema with
  | none => exact .pure _
  | some s =>
    have hs := hs s rfl
    have hself := hs s s.self_mem_nodes
    unfold mapNode
    dsimp only
    split
    · exact steady_externalType _
    · cases s with
      | reference location target => exact steady_referenceWith known map target location
      | unsupported => exact .fail _
      | primitive => exact Step.Steady.compositional.map (.lift _) _
      | binary => exact .pure _
      | any => exact .pure _
      | array n items =>
        exact Step.Steady.compositional.map
          (hmap items owner _ (hs.part (by simp [Schema.parts]))) _
      | map n value =>
        exact Step.Steady.compositional.map
          (hmap value owner _ (hs.part (by simp [Schema.parts]))) _
      | enumeration => cases hself
      | object n properties required members =>
        have hempty : (properties.isEmpty && members.isEmpty) = true := by
          simpa [Schema.needsEntry] using hself
        dsimp only
        rw [if_pos hempty]
        exact .pure _

theorem steady_mapWithin (known : AliasesKnown contract t) (depth : ℕ) {schema : Option Schema}
    (hs : ∀ s, schema = some s → s.Entryless) (owner : String) (role : Scalar) :
    Step.Steady t.Lasts (mapWithin contract depth schema owner role) := by
  induction depth generalizing schema owner role with
  | zero => exact .fail _
  | succ depth ih =>
    refine steady_mapNode known (fun s owner role h => ih ?_ owner role) hs owner role
    rintro _ ⟨⟩
    exact h

/-- A schema that needs no entry gets the same type in all later tables, or the same fault. -/
theorem steady_mapSchema (known : AliasesKnown contract t) {s : Schema} (hs : s.Entryless)
    (owner : String) (role : Scalar) :
    Step.Steady t.Lasts (mapSchema contract (some s) owner role) := by
  refine steady_mapWithin known _ ?_ owner role
  rintro _ ⟨⟩
  exact hs

end Types

end ApiContract
