import ApiContract.Proofs.Types.Inversion

/-! # Which schemas can be mapped

Whether a schema can be mapped is a matter of the contract and of the failed components
alone. A schema can be mapped at a level when its parts can at the level below, so that
no alias comes back to itself. What was mapped can be mapped in this sense, also when a
known alias spared the way down.
-/
namespace ApiContract

/-- A component whose type does not depend on that of its parts. -/
def Schema.isDirect (s : Schema) : Bool := s.isExternal || s.isObject || s.isEnumeration

namespace Types

open TypeTables

variable {contract : Contract} {F : String → Prop} {map : Mapping}

/-- An object merges, and all its properties have a property of schemas. -/
def Merges (contract : Contract) (P : Schema → Prop) (s : Schema) : Prop :=
  ∃ merged, Merged.ofSchema contract s = .ok merged ∧ ∀ p ∈ merged.properties, P p.2

/-- A node can be mapped when `P` holds of its parts and of what it refers to. -/
def MappableNode (contract : Contract) (F : String → Prop) (P : Schema → Prop) (s : Schema) :
    Prop :=
  s.isExternal = true ∨ match s with
    | .reference _ target =>
      ¬F target ∧ ∀ t, contract.schema? target = some t → t.isDirect = true ∨ P t
    | .unsupported .. => False
    | .array _ items => P items
    | .map _ value => P value
    | .object n properties required members =>
      (properties = [] ∧ members = []) ∨
        Merges contract P (.object n properties required members)
    | _ => True

/-- A schema that can be mapped when the components of `F` have failed. -/
def Mappable (contract : Contract) (F : String → Prop) : Nat → Schema → Prop
  | 0 => fun _ => False
  | level + 1 => MappableNode contract F (Mappable contract F level)

theorem Merges.mono {P Q : Schema → Prop} {s : Schema} (h : Merges contract P s)
    (hPQ : ∀ t, P t → Q t) : Merges contract Q s := by
  obtain ⟨merged, hm, hp⟩ := h
  exact ⟨merged, hm, fun p hpm => hPQ p.2 (hp p hpm)⟩

theorem MappableNode.mono {P Q : Schema → Prop} {s : Schema}
    (h : MappableNode contract F P s) (hPQ : ∀ t, P t → Q t) : MappableNode contract F Q s := by
  rcases h with h | h
  · exact Or.inl h
  · right
    cases s with
    | reference location target =>
      exact ⟨h.1, fun t ht => (h.2 t ht).imp id (hPQ t)⟩
    | array n items => exact hPQ items h
    | map n value => exact hPQ value h
    | object n properties required members => exact h.imp id fun hm => hm.mono hPQ
    | unsupported => exact h
    | _ => trivial

theorem Mappable.succ {level : Nat} {s : Schema} (h : Mappable contract F level s) :
    Mappable contract F (level + 1) s := by
  induction level generalizing s with
  | zero => exact h.elim
  | succ level ih => exact MappableNode.mono h fun t ht => ih ht

theorem Mappable.mono {k l : Nat} {s : Schema} (h : Mappable contract F k s) (hkl : k ≤ l) :
    Mappable contract F l s := by
  induction hkl with
  | refl => exact h
  | step _ ih => exact ih.succ

theorem Mappable.exists_least {level : Nat} {s : Schema} (h : Mappable contract F level s) :
    ∃ k < level, Mappable contract F (k + 1) s ∧ ¬Mappable contract F k s := by
  induction level with
  | zero => exact h.elim
  | succ level ih =>
    by_cases hs : Mappable contract F level s
    · obtain ⟨k, hk, hsucc, hnot⟩ := ih hs
      exact ⟨k, by omega, hsucc, hnot⟩
    · exact ⟨level, by omega, h, hs⟩

/-- Finitely many schemas that can be mapped can be mapped at one level. -/
theorem exists_level {properties : List (Scalar × Schema)}
    (h : ∀ p ∈ properties, ∃ level, Mappable contract F level p.2) :
    ∃ level, ∀ p ∈ properties, Mappable contract F level p.2 := by
  induction properties with
  | nil => exact ⟨0, by simp⟩
  | cons p rest ih =>
    obtain ⟨k, hk⟩ := h p List.mem_cons_self
    obtain ⟨l, hl⟩ := ih fun q hq => h q (List.mem_cons_of_mem _ hq)
    refine ⟨max k l, ?_⟩
    intro q hq
    rcases List.mem_cons.mp hq with rfl | hq
    · exact hk.mono (Nat.le_max_left k l)
    · exact (hl q hq).mono (Nat.le_max_right k l)

/-- Tables that know the failures and hold only aliases that can be mapped. -/
structure Sound (contract : Contract) (F : String → Prop) (t : TypeTables) : Prop where
  failed : ∀ n, F n → n ∈ Table.keys t.failed
  aliases : ∀ n ∈ Table.keys t.aliases, ∀ s, contract.schema? n = some s →
    ∃ level, Mappable contract F level s

theorem Sound.learning {t : TypeTables} (h : Sound contract F t) {name : String} {s : Schema}
    (type : TypeRef) {level : Nat} (hs : contract.schema? name = some s)
    (hm : Mappable contract F level s) : Sound contract F (learning t name type) where
  failed := h.failed
  aliases := by
    intro n hn s' hs'
    rcases Table.mem_keys_put.mp hn with rfl | hn
    · cases hs.symm.trans hs'
      exact ⟨level, hm⟩
    · exact h.aliases n hn s' hs'

/-- What a way to map guarantees when it succeeds over sound tables. -/
def Explains (contract : Contract) (F : String → Prop) (map : Mapping) : Prop :=
  ∀ s owner role w type w', map (some s) owner role w = .ok type w' →
    Sound contract F w.tables →
    (∃ level, Mappable contract F level s) ∧ Sound contract F w'.tables

theorem explains_beanFields (hmap : Explains contract F map) {owner : String}
    {required : List Scalar} {properties : List (Scalar × Schema)} {fields : List BeanField}
    {w w' : Workspace}
    (h : properties.mapM (beanField map owner required) w = .ok fields w')
    (hw : Sound contract F w.tables) :
    (∀ p ∈ properties, ∃ level, Mappable contract F level p.2) ∧
      Sound contract F w'.tables := by
  induction properties generalizing w fields with
  | nil =>
    cases h
    exact ⟨by simp, hw⟩
  | cons p rest ih =>
    rw [List.mapM_cons] at h
    obtain ⟨field, v, hfield, h⟩ := Step.bind_eq_ok.mp h
    obtain ⟨others, u, hothers, h⟩ := Step.bind_eq_ok.mp h
    cases h
    obtain ⟨type, u, htype, h⟩ := Step.bind_eq_ok.mp hfield
    cases h
    obtain ⟨hp, hv⟩ := hmap _ _ _ _ _ _ htype hw
    obtain ⟨hrest, hw'⟩ := ih hothers hv
    refine ⟨?_, hw'⟩
    intro q hq
    rcases List.mem_cons.mp hq with rfl | hq
    · exact hp
    · exact hrest q hq

theorem explains_buildBean (hmap : Explains contract F map) {name : String} {s : Schema}
    {w w' : Workspace} (h : buildBean contract map name s w = .ok () w')
    (hw : Sound contract F w.tables) :
    (∃ level, Merges contract (Mappable contract F level) s) ∧ Sound contract F w'.tables := by
  obtain ⟨merged, fields, v, hmerged, hfields, ht⟩ := buildBean_eq_ok h
  obtain ⟨hall, hv⟩ := explains_beanFields hmap hfields hw
  obtain ⟨level, hlevel⟩ := exists_level hall
  refine ⟨⟨level, merged, hmerged, hlevel⟩, ?_⟩
  rw [ht]
  exact ⟨hv.failed, hv.aliases⟩

theorem explains_resolveAlias (hmap : Explains contract F map)
    {name javaName location : String} {s : Schema} {type : TypeRef} {w w' : Workspace}
    (hs : contract.schema? name = some s)
    (h : resolveAlias map name javaName location s w = .ok type w')
    (hw : Sound contract F w.tables) :
    (∃ level, Mappable contract F level s) ∧ Sound contract F w'.tables := by
  rcases resolveAlias_cases map name javaName location s w with
    ⟨known, hknown, he⟩ | ⟨-, he⟩ | ⟨-, -, ⟨type', v, hm, he⟩ | ⟨e, v, -, he⟩⟩
  · cases he.symm.trans h
    exact ⟨hw.aliases name (Table.mem_keys_of_get? hknown) s hs, hw⟩
  · cases he.symm.trans h
  · cases he.symm.trans h
    obtain ⟨⟨level, hlevel⟩, hv⟩ := hmap _ _ _ _ _ _ hm ⟨hw.failed, hw.aliases⟩
    have hleft : Sound contract F (leaving v.tables name) := ⟨hv.failed, hv.aliases⟩
    exact ⟨⟨level, hlevel⟩, hleft.learning type hs hlevel⟩
  · cases he.symm.trans h

/-- A component that a reference was resolved to did not fail, and can be mapped where
its type depends on its parts. -/
theorem explains_referenceWith (hmap : Explains contract F map) {name location : String}
    {type : TypeRef} {w w' : Workspace}
    (h : referenceWith contract map name location w = .ok type w')
    (hw : Sound contract F w.tables) :
    (∃ level, Mappable contract F level (.reference location name)) ∧
      Sound contract F w'.tables := by
  obtain ⟨hsound, href⟩ := referred_of_eq_ok h
  have hnot : ¬F name := fun hF => hsound (hw.failed name hF)
  have hdirect : ∀ {s : Schema}, contract.schema? name = some s → s.isDirect = true →
      ∃ level, Mappable contract F level (.reference location name) := by
    intro s hs hd
    refine ⟨1, Or.inr ⟨hnot, ?_⟩⟩
    intro t ht
    cases hs.symm.trans ht
    exact Or.inl hd
  cases href with
  | external found external => exact ⟨hdirect found (by simp [Schema.isDirect, external]), hw⟩
  | bean found _ object => exact ⟨hdirect found (by simp [Schema.isDirect, object]), hw⟩
  | enum found _ enumeration => exact ⟨hdirect found (by simp [Schema.isDirect, enumeration]), hw⟩
  | aliased found resolved =>
    obtain ⟨⟨level, hlevel⟩, hw'⟩ := explains_resolveAlias hmap found resolved hw
    refine ⟨⟨level + 1, Or.inr ⟨hnot, ?_⟩⟩, hw'⟩
    intro t ht
    cases found.symm.trans ht
    exact Or.inr hlevel

theorem explains_mapNode (hmap : Explains contract F map) :
    Explains contract F (mapNode contract map) := by
  intro s owner role w type w' h hw
  cases mapped_of_eq_ok h with
  | external external => exact ⟨⟨1, Or.inl external⟩, hw⟩
  | reference referred => exact explains_referenceWith hmap referred hw
  | primitive => exact ⟨⟨1, Or.inr trivial⟩, hw⟩
  | binary => exact ⟨⟨1, Or.inr trivial⟩, hw⟩
  | any => exact ⟨⟨1, Or.inr trivial⟩, hw⟩
  | array element =>
    obtain ⟨⟨level, hlevel⟩, hw'⟩ := hmap _ _ _ _ _ _ element hw
    exact ⟨⟨level + 1, Or.inr hlevel⟩, hw'⟩
  | map element =>
    obtain ⟨⟨level, hlevel⟩, hw'⟩ := hmap _ _ _ _ _ _ element hw
    exact ⟨⟨level + 1, Or.inr hlevel⟩, hw'⟩
  | enumeration _ built =>
    rw [buildEnum_eq_ok built]
    exact ⟨⟨1, Or.inr trivial⟩, hw.failed, hw.aliases⟩
  | emptyObject => exact ⟨⟨1, Or.inr (Or.inl ⟨rfl, rfl⟩)⟩, hw⟩
  | object object _ built =>
    obtain ⟨⟨level, hlevel⟩, hw'⟩ := explains_buildBean hmap built ⟨hw.failed, hw.aliases⟩
    cases s with
    | object => exact ⟨⟨level + 1, Or.inr (Or.inr hlevel)⟩, hw'⟩
    | _ => cases object

/-- A schema that was mapped can be mapped, at any depth. -/
theorem explains_mapWithin (depth : Nat) : Explains contract F (mapWithin contract depth) := by
  induction depth with
  | zero =>
    intro s owner role w type w' h _
    cases h
  | succ depth ih => exact explains_mapNode ih

end Types

end ApiContract
