import ApiContract.Proofs.Types.Mappable

/-! # What can be mapped meets no fault

A schema that can be mapped is mapped without a schema fault from any tables whose
failures it allows for. The aliases under way cannot be mapped at the level that is
still to come, so that none of them is met again on the way down.
-/
namespace ApiContract

abbrev Step.Faultless {α : Type} (step : Step α) (w : Workspace) : Prop :=
  step.Avoids Failure.isSchema w

namespace Types

open TypeTables Step

variable {contract : Contract} {F : String → Prop} {map : Mapping} {w : Workspace}

/-- Tables from which schemas of a level are mapped: no failure is beyond `F`, and no
alias under way can be mapped at the level. -/
structure Above (contract : Contract) (F : String → Prop) (level : Nat) (t : TypeTables) :
    Prop where
  reserved : t.Reserved
  failed : ∀ n ∈ Table.keys t.failed, F n
  resolving : ∀ n ∈ t.resolving, ∀ s, contract.schema? n = some s →
    ¬Mappable contract F level s

theorem Above.mono {k l : Nat} {t : TypeTables} (h : Above contract F l t) (hkl : k ≤ l) :
    Above contract F k t where
  reserved := h.reserved
  failed := h.failed
  resolving := fun n hn s hs hm => h.resolving n hn s hs (hm.mono hkl)

theorem Above.grows {level : Nat} {t t' : TypeTables} (h : Above contract F level t)
    (hg : t.Grows t') : Above contract F level t' := by
  obtain ⟨a, ha, rfl⟩ := hg h.reserved
  exact ⟨h.reserved.extend (by simp) ha, h.failed, h.resolving⟩

theorem Above.take {level : Nat} {t : TypeTables} (h : Above contract F level t) (name : String) :
    Above contract F level (t.take name) where
  reserved := fun n hn => List.mem_cons_of_mem _ (h.reserved n hn)
  failed := h.failed
  resolving := h.resolving

/-- An alias goes under way at the level below the first at which it can be mapped. -/
theorem Above.entering {level : Nat} {t : TypeTables} (h : Above contract F level t)
    {name : String} {s : Schema} (hs : contract.schema? name = some s)
    (hnot : ¬Mappable contract F level s) : Above contract F level (entering t name) where
  reserved := h.reserved
  failed := h.failed
  resolving := by
    intro n hn s' hs'
    rcases List.mem_cons.mp hn with rfl | hn
    · cases hs.symm.trans hs'
      exact hnot
    · exact h.resolving n hn s' hs'

/-- A way to map that meets no fault where the schema can be mapped. -/
def Safe (contract : Contract) (F : String → Prop) (map : Mapping) : Prop :=
  ∀ level s owner role w, Mappable contract F (level + 1) s → Above contract F level w.tables →
    Faultless (map (some s) owner role) w

theorem Safe.part (hmap : Safe contract F map) {level : Nat} {s : Schema} (owner : String)
    (role : Scalar) (hs : Mappable contract F level s) (hw : Above contract F level w.tables) :
    Faultless (map (some s) owner role) w := by
  cases level with
  | zero => exact hs.elim
  | succ level => exact hmap level s owner role w hs (hw.mono (Nat.le_succ level))

theorem faultless_externalType (name : Tree) : Faultless (externalType name) w :=
  .lift (.map (.need rfl _) _)

theorem faultless_synthesizeName (owner : String) (role : Scalar) :
    Faultless (synthesizeName owner role) w := by
  refine .bind (.lift ?_) fun half v _ => .of_ok (giveName_apply _ v)
  unfold roleName
  split
  · exact .map (.need rfl _) _
  · exact .ok _

theorem faultless_formatText (format : Tree) : (formatText format).Avoids Failure.isSchema := by
  unfold formatText
  split
  · exact .ok _
  · exact .ok _
  · exact .error rfl

theorem faultless_beanFields (hmap : Safe contract F map) (hgrow : Growing map) {level : Nat}
    {owner : String} {required : List Scalar} {properties : List (Scalar × Schema)}
    (hp : ∀ p ∈ properties, Mappable contract F level p.2)
    (hw : Above contract F level w.tables) :
    Faultless (properties.mapM (beanField map owner required)) w := by
  induction properties generalizing w with
  | nil => exact .pure _
  | cons p rest ih =>
    rw [List.mapM_cons]
    have hpart := hmap.part owner p.1 (hp p List.mem_cons_self) hw
    refine Avoids.bind (hpart.map _) fun field v hv => ?_
    have hgrown := hw.grows ((keeps_beanField hgrow owner required p).of_ok hv)
    exact (ih (fun q hq => hp q (List.mem_cons_of_mem _ hq)) hgrown).map _

theorem faultless_buildBean (hmap : Safe contract F map) (hgrow : Growing map) {level : Nat}
    {name : String} {s : Schema} (hs : Merges contract (Mappable contract F level) s)
    (hw : Above contract F level w.tables) : Faultless (buildBean contract map name s) w := by
  obtain ⟨merged, hmerged, hp⟩ := hs
  refine Avoids.bind (.lift (hmerged ▸ .ok merged)) fun merged' v hv => ?_
  obtain ⟨hm, rfl⟩ := lift_eq_ok.mp hv
  cases hmerged.symm.trans hm
  exact Avoids.bind (faultless_beanFields hmap hgrow hp hw) fun fields v _ => .of_ok rfl

theorem faultless_resolveAlias (hmap : Safe contract F map) {level : Nat}
    {name javaName location : String} {s : Schema} (hs : contract.schema? name = some s)
    (hm : Mappable contract F level s) (hw : Above contract F level w.tables) :
    Faultless (resolveAlias map name javaName location s) w := by
  rcases resolveAlias_cases map name javaName location s w with
    ⟨type, -, he⟩ | ⟨hr, -⟩ | ⟨-, -, ⟨type, v, -, he⟩ | ⟨e, v, hfail, he⟩⟩
  · exact .of_ok he
  · exact absurd hm (hw.resolving name hr s hs)
  · exact .of_ok he
  · obtain ⟨k, hk, hsucc, hnot⟩ := hm.exists_least
    have hbelow := (hw.mono (Nat.le_of_lt hk)).entering hs hnot
    intro e' w' h
    cases he.symm.trans h
    exact hmap k s javaName _ _ hsucc hbelow e v hfail

theorem faultless_referenceWith (hmap : Safe contract F map) {level : Nat}
    {name location : String} (hm : Mappable contract F (level + 1) (.reference location name))
    (hw : Above contract F level w.tables) (place : String) :
    Faultless (referenceWith contract map name place) w := by
  have hnode := hm.resolve_left (by simp [Schema.isExternal, Schema.external, Schema.notes,
    Tree.isTruthy, Scalar.isTruthy])
  obtain ⟨hsound, htarget⟩ := hnode
  refine Avoids.bind (.of_ok rfl) fun t v ht => ?_
  cases ht
  cases hf : Table.get? w.tables.failed name with
  | some fault => exact absurd (hw.failed name (Table.mem_keys_of_get? hf)) hsound
  | none =>
    refine Avoids.bind (.lift (.need rfl _)) fun s v hlift => ?_
    obtain ⟨hs, rfl⟩ := lift_eq_ok.mp hlift
    have hfound := Outcome.need_eq_ok.mp hs
    refine Avoids.bind (.lift (.need rfl _)) fun javaName v hlift => ?_
    obtain ⟨-, rfl⟩ := lift_eq_ok.mp hlift
    by_cases hx : s.isExternal = true
    · rw [if_pos hx]
      exact faultless_externalType _
    · rw [if_neg hx]
      rcases htarget s hfound with hdirect | hm
      · cases s with
        | object => exact .pure _
        | enumeration => exact .pure _
        | _ => simp [Schema.isDirect, Schema.isObject, Schema.isEnumeration, hx] at hdirect
      · cases s with
        | object => exact .pure _
        | enumeration => exact .pure _
        | _ => exact faultless_resolveAlias hmap hfound hm hw

theorem safe_mapNode (hmap : Safe contract F map) (hgrow : Growing map) :
    Safe contract F (mapNode contract map) := by
  intro level s owner role w hs hw
  unfold mapNode
  dsimp only
  by_cases hx : s.isExternal = true
  · rw [if_pos hx]
    exact faultless_externalType _
  · rw [if_neg hx]
    have hnode := hs.resolve_left hx
    cases s with
    | reference location target => exact faultless_referenceWith hmap hs hw location
    | unsupported => exact hnode.elim
    | primitive n type format => exact (Avoids.lift (faultless_formatText format)).map _
    | binary => exact .pure _
    | any => exact .pure _
    | array n items => exact (hmap.part owner _ hnode hw).map _
    | map n value => exact (hmap.part owner _ hnode hw).map _
    | enumeration n type values =>
      exact Avoids.bind (faultless_synthesizeName owner role) fun name v _ => .of_ok rfl
    | object n properties required members =>
      dsimp only
      by_cases hempty : (properties.isEmpty && members.isEmpty) = true
      · rw [if_pos hempty]
        exact .pure _
      · rw [if_neg hempty]
        simp only [Bool.and_eq_true, List.isEmpty_iff] at hempty
        refine Avoids.bind (faultless_synthesizeName owner role) fun name v hv => ?_
        obtain ⟨-, rfl⟩ := synthesizeName_eq_ok hv
        exact (faultless_buildBean hmap hgrow (hnode.resolve_left hempty) (hw.take name)).map _

theorem safe_mapWithin (depth : Nat) : Safe contract F (mapWithin contract depth) := by
  induction depth with
  | zero =>
    intro level s owner role w _ _
    exact Avoids.fail rfl
  | succ depth ih => exact safe_mapNode ih (growing_mapWithin depth)

end Types

end ApiContract
