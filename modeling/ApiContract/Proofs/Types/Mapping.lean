import ApiContract.Proofs.Types.Addition
import ApiContract.Proofs.Types.Plain
import ApiContract.Types.Mapping

/-! # Mapping adds to the tables

Mapping a schema, at any depth and with any outcome, adds to the tables and changes
nothing in them. A derived name is given out before the entry under it is written,
and an alias is under way only while its own schema is mapped, so that nothing inside
can write it. Mapping uses the tables and nothing else of a workspace, so that it has
every property that all uses of the tables have.
-/
namespace ApiContract.Types

open TypeTables Addition

variable {α : Type} {contract : Contract} {map : Mapping}

theorem giveName_apply (base : String) (w : Workspace) :
    giveName base w = .ok (w.tables.freshName base)
      { w with tables := w.tables.take (w.tables.freshName base) } := rfl

theorem fits_name {t : TypeTables} {n : String} (h : n ∉ t.taken) :
    Fits [] { names := [n] } t where
  names := by simpa using h
  distinct := by simp
  named := by simp [Addition.entryNames]
  apart := by simp [Addition.entryNames]
  beanNames := by simp
  enumNames := by simp
  aliases := by simp
  aliasesApart := by simp

theorem take_eq_extend (t : TypeTables) (n : String) : t.take n = t.extend { names := [n] } := by
  simp [TypeTables.take, extend]

theorem synthesizeName_eq_ok {owner name : String} {role : Scalar} {w w' : Workspace}
    (h : synthesizeName owner role w = .ok name w') :
    name ∉ w.tables.taken ∧ w' = { w with tables := w.tables.take name } := by
  obtain ⟨half, v, hv, h⟩ := Step.bind_eq_ok.mp h
  obtain ⟨-, rfl⟩ := Step.lift_eq_ok.mp hv
  rw [giveName_apply] at h
  cases h
  exact ⟨freshName_notMem _ _, rfl⟩

theorem synthesizeName_eq_error {owner : String} {role : Scalar} {w w' : Workspace} {e : Failure}
    (h : synthesizeName owner role w = .error e w') : w' = w := by
  rcases Step.bind_eq_error.mp h with h | ⟨half, v, -, h⟩
  · exact (Step.lift_eq_error.mp h).2.symm
  · rw [giveName_apply] at h
    cases h

/-- A derived name followed by what is entered under it. -/
theorem keeps_named {owner : String} {role : Scalar} {f : String → Step α}
    (hf : ∀ name, Step.Keeps (GrowsWith [name]) (f name)) :
    Step.Keeps Grows (synthesizeName owner role >>= f) := by
  intro w
  rw [Step.bind_apply]
  cases hs : synthesizeName owner role w with
  | error e w' =>
    rw [synthesizeName_eq_error hs]
    exact Grows.refl _
  | ok name w' =>
    obtain ⟨hnew, rfl⟩ := synthesizeName_eq_ok hs
    intro ht
    have hfirst := fits_name hnew
    have hgrow := hf name { w with tables := w.tables.take name }
    rw [take_eq_extend] at hgrow
    have hunused : name ∉ w.tables.entryNames := fun h => hnew (ht name h)
    obtain ⟨a, ha, he⟩ := hgrow (ht.extend (by simp) hfirst) (by
      intro n hn
      rw [List.mem_singleton.mp hn]
      refine ⟨by simp, ?_⟩
      simpa [mem_entryNames_extend, Addition.entryNames] using hunused)
    refine ⟨_, hfirst.append ha (by simp) ?_, ?_⟩
    · intro n hn
      simp [List.mem_singleton.mp hn, Addition.entryNames]
    · rw [take_eq_extend]
      exact he.trans (extend_append _ _ _)

theorem fits_bean {t : TypeTables} {name : String} {bean : Bean} (hb : bean.name = name) :
    Fits [name] { beans := [(name, bean)] } t where
  names := by simp
  distinct := by simp
  named := by simp [Addition.entryNames]
  apart := by simp [Addition.entryNames]
  beanNames := by simpa using hb
  enumNames := by simp
  aliases := by simp
  aliasesApart := by simp

theorem fits_enum {t : TypeTables} {name : String} {enum : EnumType} (he : enum.name = name) :
    Fits [name] { enums := [(name, enum)] } t where
  names := by simp
  distinct := by simp
  named := by simp [Addition.entryNames]
  apart := by simp [Addition.entryNames]
  beanNames := by simp
  enumNames := by simpa using he
  aliases := by simp
  aliasesApart := by simp

theorem put_beans_eq_extend {t : TypeTables} {name : String} (bean : Bean)
    (h : name ∉ t.entryNames) :
    { t with beans := Table.put t.beans name bean } = t.extend { beans := [(name, bean)] } := by
  have hn : Table.has t.beans name = false :=
    Table.has_eq_false_iff.mpr fun hk => h (List.mem_append_left _ hk)
  simp [extend, Table.put_of_not_has bean hn]

theorem put_enums_eq_extend {t : TypeTables} {name : String} (enum : EnumType)
    (h : name ∉ t.entryNames) :
    { t with enums := Table.put t.enums name enum } = t.extend { enums := [(name, enum)] } := by
  have hn : Table.has t.enums name = false :=
    Table.has_eq_false_iff.mpr fun hk => h (List.mem_append_right _ hk)
  simp [extend, Table.put_of_not_has enum hn]

theorem keeps_buildEnum (name : String) (schema : Schema) (values : List Tree) :
    Step.Keeps (GrowsWith [name]) (buildEnum name schema values) := by
  unfold buildEnum
  apply Step.Keeps.modifyTables
  intro t _ hfree
  exact ⟨_, fits_enum rfl, put_enums_eq_extend _ (hfree name (by simp)).2⟩

def Growing (map : Mapping) : Prop :=
  ∀ schema owner role, Step.Keeps Grows (map schema owner role)

theorem keeps_beanField (hmap : Growing map) (owner : String) (required : List Scalar)
    (property : Scalar × Schema) :
    Step.Keeps Grows (beanField map owner required property) := by
  exact (hmap _ _ _).map _

theorem keeps_beanFields (hmap : Growing map) (owner : String) (required : List Scalar)
    (properties : Table Scalar Schema) :
    Step.Keeps Grows (properties.mapM (beanField map owner required)) :=
  Step.Keeps.compositional.mapM fun p _ => keeps_beanField hmap owner required p

theorem keeps_buildBean (hmap : Growing map) (name : String) (schema : Schema) :
    Step.Keeps (GrowsWith [name]) (buildBean contract map name schema) := by
  intro w
  unfold buildBean
  rw [Step.bind_apply]
  cases hm : Step.lift (Merged.ofSchema contract schema) w with
  | error e v =>
    obtain ⟨-, rfl⟩ := Step.lift_eq_error.mp hm
    exact (Grows.refl _).growsWith _
  | ok merged v =>
    obtain ⟨-, rfl⟩ := Step.lift_eq_ok.mp hm
    have hfields := keeps_beanFields hmap name merged.required merged.properties
    simp only [Step.bind_apply]
    cases hf : merged.properties.mapM (beanField map name merged.required) w with
    | error e v => exact (hfields.of_error hf).growsWith _
    | ok fields v =>
      intro ht hfree
      obtain ⟨a, ha, he⟩ := hfields.of_ok hf ht
      obtain ⟨htaken, hunused⟩ := hfree name (by simp)
      have hfit := ha.notMem_entryNames htaken
      have hout : name ∉ v.tables.entryNames := by
        rw [he, mem_entryNames_extend]
        exact fun h => h.elim hunused hfit
      simp only [Step.modifyTables_apply, Step.record_apply, Step.outcome_ok]
      rw [put_beans_eq_extend _ hout, he, extend_append]
      have hbean : ∀ t, Fits [name] { beans := [(name, Bean.mk name fields schema.description
          schema.location)] } t := fun t => fits_bean rfl
      refine ⟨_, ha.mono.append (hbean _) (by simpa using htaken) ?_, rfl⟩
      intro n hn
      rw [List.mem_singleton.mp hn]
      exact ⟨Or.inr (by simp), hfit⟩

theorem fits_alias {t : TypeTables} {name : String} {type : TypeRef}
    (hk : name ∉ Table.keys t.aliases) (hr : name ∉ t.resolving) :
    Fits [] { aliases := [(name, type)] } t where
  names := by simp
  distinct := by simp
  named := by simp [Addition.entryNames]
  apart := by simp [Addition.entryNames]
  beanNames := by simp
  enumNames := by simp
  aliases := by simpa using ⟨hk, hr⟩
  aliasesApart := by simp

/-- The tables while an alias is under way. -/
def entering (t : TypeTables) (name : String) : TypeTables :=
  { t with resolving := name :: t.resolving }

def leaving (t : TypeTables) (name : String) : TypeTables :=
  { t with resolving := t.resolving.filter (· ≠ name) }

def learning (t : TypeTables) (name : String) (type : TypeRef) : TypeTables :=
  { t with aliases := Table.put t.aliases name type }

/-- An alias is known, or under way already, or its schema is mapped with the alias
under way. -/
theorem resolveAlias_cases (map : Mapping) (name javaName location : String) (schema : Schema)
    (w : Workspace) :
    (∃ type, Table.get? w.tables.aliases name = some type ∧
      resolveAlias map name javaName location schema w = .ok type w) ∨
    (name ∈ w.tables.resolving ∧ resolveAlias map name javaName location schema w =
      .error (.schema (.circularAlias name) location) w) ∨
    (name ∉ Table.keys w.tables.aliases ∧ name ∉ w.tables.resolving ∧
      ((∃ type v, map (some schema) javaName (.text "")
          { w with tables := entering w.tables name } = .ok type v ∧
        resolveAlias map name javaName location schema w =
          .ok type { v with tables := learning (leaving v.tables name) name type }) ∨
      ∃ e v, map (some schema) javaName (.text "")
          { w with tables := entering w.tables name } = .error e v ∧
        resolveAlias map name javaName location schema w =
          .error e { v with tables := leaving v.tables name })) := by
  unfold resolveAlias
  simp only [Step.bind_apply, Step.tables_apply]
  cases hget : Table.get? w.tables.aliases name with
  | some type => exact Or.inl ⟨type, rfl, rfl⟩
  | none =>
    right
    by_cases hr : name ∈ w.tables.resolving
    · exact Or.inl ⟨hr, by simp [hr]⟩
    · refine Or.inr ⟨Table.get?_eq_none_iff.mp hget, hr, ?_⟩
      simp only [hr, if_false, Step.bind_apply, Step.modifyTables_apply, Step.afterwards]
      cases hm : map (some schema) javaName (.text "")
          { w with tables := entering w.tables name } with
      | ok type v =>
        rw [entering] at hm
        exact Or.inl ⟨type, v, rfl, by simp [hm, leaving, learning]⟩
      | error e v =>
        rw [entering] at hm
        exact Or.inr ⟨e, v, rfl, by simp [hm, leaving]⟩

/-- What was added while an alias was under way fits the tables without it, and does
not hold the alias itself. -/
theorem fits_of_entering {t : TypeTables} {name : String} {a : Addition}
    (ha : Fits [] a (entering t name)) :
    Fits [] a t ∧ name ∉ Table.keys a.aliases := by
  constructor
  · exact
      { names := ha.names, distinct := ha.distinct, named := ha.named, apart := ha.apart,
        beanNames := ha.beanNames, enumNames := ha.enumNames, aliasesApart := ha.aliasesApart,
        aliases := fun n hn => (ha.aliases n hn).imp id fun h hr =>
          h (List.mem_cons_of_mem _ hr) }
  · intro hn
    exact (ha.aliases name hn).2 List.mem_cons_self

/-- Leaving an alias that was not under way before gives the names under way back. -/
theorem leaving_extend {t : TypeTables} {name : String} (a : Addition)
    (hr : name ∉ t.resolving) : leaving ((entering t name).extend a) name = t.extend a := by
  have hkept : t.resolving.filter (· ≠ name) = t.resolving := by
    apply List.filter_eq_self.mpr
    intro n hn
    have hne : n ≠ name := fun h => hr (h ▸ hn)
    simpa using hne
  have hleft : (name :: t.resolving).filter (· ≠ name) = t.resolving := by
    simpa using hkept
  simp only [leaving, entering, extend, hleft]

theorem learning_eq_extend {t : TypeTables} {name : String} (type : TypeRef)
    (hk : name ∉ Table.keys t.aliases) :
    learning t name type = t.extend { aliases := [(name, type)] } := by
  simp [learning, extend, Table.put_of_not_has type (Table.has_eq_false_iff.mpr hk)]

theorem keeps_resolveAlias (hmap : Growing map) (name javaName location : String)
    (schema : Schema) : Step.Keeps Grows (resolveAlias map name javaName location schema) := by
  intro w
  rcases resolveAlias_cases map name javaName location schema w with
    ⟨type, -, he⟩ | ⟨-, he⟩ | ⟨hk, hr, ⟨type, v, hm, he⟩ | ⟨e, v, hm, he⟩⟩
  · rw [he]
    exact Grows.refl _
  · rw [he]
    exact Grows.refl _
  · rw [he]
    intro ht
    obtain ⟨a, ha, hv⟩ := (hmap _ _ _).of_ok hm ht
    obtain ⟨hfit, hout⟩ := fits_of_entering ha
    have hknown : name ∉ Table.keys (w.tables.extend a).aliases := by
      simpa using ⟨hk, hout⟩
    have halias : Fits [] { aliases := [(name, type)] } (w.tables.extend a) :=
      fits_alias hknown hr
    refine ⟨_, hfit.append halias (by simp) (by simp), ?_⟩
    simp only [Step.outcome_ok, hv, leaving_extend a hr]
    rw [learning_eq_extend type hknown, extend_append]
  · rw [he]
    intro ht
    obtain ⟨a, ha, hv⟩ := (hmap _ _ _).of_error hm ht
    refine ⟨a, (fits_of_entering ha).1, ?_⟩
    simp only [Step.outcome_error, hv, leaving_extend a hr]

theorem keeps_externalType (name : Tree) : Step.Keeps Grows (externalType name) :=
  Step.Keeps.lift _

theorem keeps_referenceWith (hmap : Growing map) (name location : String) :
    Step.Keeps Grows (referenceWith contract map name location) := by
  refine Step.Keeps.bind Step.Keeps.tables fun t => ?_
  split
  · exact Step.Keeps.fail _
  · refine Step.Keeps.bind (Step.Keeps.lift _) fun schema => ?_
    refine Step.Keeps.bind (Step.Keeps.lift _) fun javaName => ?_
    split
    · exact keeps_externalType _
    · split
      · exact Step.Keeps.pure _
      · exact Step.Keeps.pure _
      · exact keeps_resolveAlias hmap name javaName location schema

theorem growing_mapNode (hmap : Growing map) : Growing (mapNode contract map) := by
  intro schema owner role
  cases schema with
  | none => exact Step.Keeps.pure _
  | some s =>
    unfold mapNode
    dsimp only
    split
    · exact keeps_externalType _
    · split
      · exact keeps_referenceWith hmap _ _
      · exact Step.Keeps.fail _
      · exact (Step.Keeps.lift _).map _
      · exact Step.Keeps.pure _
      · exact Step.Keeps.pure _
      · exact (hmap _ _ _).map _
      · exact (hmap _ _ _).map _
      · exact keeps_named fun name => (keeps_buildEnum name _ _).map _
      · split
        · exact Step.Keeps.pure _
        · exact keeps_named fun name => (keeps_buildBean hmap name _).map _

/-- Mapping a schema adds to the tables, however deep it goes and however it ends. -/
theorem growing_mapWithin (depth : Nat) : Growing (mapWithin contract depth) := by
  induction depth with
  | zero =>
    intro schema owner role
    exact Step.Keeps.fail _
  | succ depth ih => exact growing_mapNode ih

theorem growing_mapSchema : Growing (mapSchema contract) := by
  intro schema owner role
  exact growing_mapWithin _ schema owner role

section Uniform
variable {P : ∀ α : Type, Step α → Prop} (hP : Step.Uniform P)
include hP

theorem synthesizeName_of (owner : String) (role : Scalar) :
    P String (synthesizeName owner role) := by
  refine hP.bind (hP.lift (plain_roleName role)) fun half => ?_
  refine hP.bind hP.tables fun t => ?_
  exact hP.map (hP.modifyTables _) _

theorem buildBean_of (hmap : ∀ schema owner role, P TypeRef (map schema owner role))
    (name : String) (schema : Schema) : P Unit (buildBean contract map name schema) := by
  refine hP.bind (hP.lift (Merged.plain_ofSchema contract schema)) fun merged => ?_
  refine hP.bind (hP.mapM fun p _ => hP.map (hmap _ _ _) _) fun fields => ?_
  exact hP.bind (hP.modifyTables _) fun _ => hP.record _

theorem buildEnum_of (name : String) (schema : Schema) (values : List Tree) :
    P Unit (buildEnum name schema values) := by
  unfold buildEnum
  exact hP.modifyTables _

theorem externalType_of (name : Tree) : P TypeRef (externalType name) :=
  hP.lift (.map (.need rfl _) _)

theorem resolveAlias_of (hmap : ∀ schema owner role, P TypeRef (map schema owner role))
    (name javaName location : String) (schema : Schema) :
    P TypeRef (resolveAlias map name javaName location schema) := by
  refine hP.bind hP.tables fun t => ?_
  split
  · exact hP.pure _
  · split
    · exact hP.fail rfl
    · refine hP.bind (hP.modifyTables _) fun _ => ?_
      refine hP.bind (hP.afterwards (hmap _ _ _) _) fun type => ?_
      exact hP.map (hP.modifyTables _) _

theorem referenceWith_of (hmap : ∀ schema owner role, P TypeRef (map schema owner role))
    (name location : String) : P TypeRef (referenceWith contract map name location) := by
  refine hP.bind hP.tables fun t => ?_
  split
  · exact hP.fail rfl
  · refine hP.bind (hP.lift (.need rfl _)) fun schema => ?_
    refine hP.bind (hP.lift (.need rfl _)) fun javaName => ?_
    split
    · exact externalType_of hP _
    · split
      · exact hP.pure _
      · exact hP.pure _
      · exact resolveAlias_of hP hmap name javaName location schema

theorem mapNode_of (hmap : ∀ schema owner role, P TypeRef (map schema owner role))
    (schema : Option Schema) (owner : String) (role : Scalar) :
    P TypeRef (mapNode contract map schema owner role) := by
  cases schema with
  | none => exact hP.pure _
  | some s =>
    unfold mapNode
    dsimp only
    split
    · exact externalType_of hP _
    · split
      · exact referenceWith_of hP hmap _ _
      · exact hP.fail rfl
      · exact hP.map (hP.lift (plain_formatText _)) _
      · exact hP.pure _
      · exact hP.pure _
      · exact hP.map (hmap _ _ _) _
      · exact hP.map (hmap _ _ _) _
      · refine hP.bind (synthesizeName_of hP owner role) fun name => ?_
        exact hP.map (buildEnum_of hP name _ _) _
      · split
        · exact hP.pure _
        · refine hP.bind (synthesizeName_of hP owner role) fun name => ?_
          exact hP.map (buildBean_of hP hmap name _) _

theorem mapWithin_of (depth : Nat) (schema : Option Schema) (owner : String) (role : Scalar) :
    P TypeRef (mapWithin contract depth schema owner role) := by
  induction depth generalizing schema owner role with
  | zero => exact hP.fail rfl
  | succ depth ih => exact mapNode_of hP ih schema owner role

theorem mapSchema_of (schema : Option Schema) (owner : String) (role : Scalar) :
    P TypeRef (mapSchema contract schema owner role) :=
  mapWithin_of hP _ schema owner role

end Uniform

end ApiContract.Types
