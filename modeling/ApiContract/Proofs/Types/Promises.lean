import ApiContract.Proofs.Types.Linked

/-! # Promises are kept

A reference to a component with a bean or an enum of its own has the name of its type
before the type is entered. A complete pass enters each of these types, so that after
it every known bean and every known enum is an entry.
-/
namespace ApiContract

namespace TypeTables

/-- Tables in which every promised bean and enum has been entered. -/
structure Kept (contract : Contract) (t : TypeTables) : Prop where
  beans : ∀ n, Promised contract hasBean t n → n ∈ Table.keys t.beans
  enums : ∀ n, Promised contract hasEnum t n → n ∈ Table.keys t.enums

variable {contract : Contract} {t t' : TypeTables}

theorem Kept.reaches (h : Kept contract t) (hr : t.Reaches t') : Kept contract t' where
  beans := by
    rintro n ⟨c, hc, hform, hsound, hname⟩
    exact hr.beans n (h.beans n ⟨c, hc, hform, hr.failed ▸ hsound, hr.typeNames ▸ hname⟩)
  enums := by
    rintro n ⟨c, hc, hform, hsound, hname⟩
    exact hr.enums n (h.enums n ⟨c, hc, hform, hr.failed ▸ hsound, hr.typeNames ▸ hname⟩)

/-- What a component contributes once it has been entered. -/
structure Contributed (c : String × Schema) (t : TypeTables) : Prop where
  bean : hasBean c.2 = true → ∀ n, Table.get? t.typeNames c.1 = some n → n ∈ Table.keys t.beans
  enum : hasEnum c.2 = true → ∀ n, Table.get? t.typeNames c.1 = some n → n ∈ Table.keys t.enums

theorem Contributed.reaches {c : String × Schema} (h : Contributed c t) (hr : t.Reaches t') :
    Contributed c t' where
  bean := fun hb n hn => hr.beans n (h.bean hb n (hr.typeNames ▸ hn))
  enum := fun he n hn => hr.enums n (h.enum he n (hr.typeNames ▸ hn))

end TypeTables

namespace Types

open TypeTables

variable {contract : Contract}

theorem Enters.reaches {javaName : String} {t t' : TypeTables} (h : Enters javaName t t')
    (ht : t.Reserved) : t.Reaches t' := by
  cases h with
  | parts grows => exact grows.reaches ht
  | bean grows => exact (grows.reaches ht).trans (reaches_withBean _ _)
  | enum grows => exact (grows.reaches ht).trans (reaches_withEnum _ _)

theorem linked_mapComponent {name : String} {s : Schema} {w w' : Workspace}
    (h : mapComponent contract name s w = .ok () w') (hw : Linked contract w.tables)
    (hs : name ∉ Table.keys w.tables.failed) :
    w.tables.Reaches w'.tables ∧ Linked contract w'.tables ∧ Contributed (name, s) w'.tables := by
  obtain ⟨javaName, hname, hentered⟩ := entered_of_eq_ok h
  have hreaches := hentered.enters.reaches hw.reserved
  have htaken := hw.named.taken name javaName hname
  have hfree := hw.named.ne_of_failed hs hname
  refine ⟨hreaches, ?_⟩
  have hown : ∀ n, Table.get? w'.tables.typeNames name = some n → n = javaName := by
    intro n hn
    rw [hreaches.typeNames] at hn
    exact Option.some.inj (hn.symm.trans hname)
  cases hentered with
  | external external =>
    exact ⟨hw, fun hb => by simp [hasBean, external] at hb,
      fun he => by simp [hasEnum, external] at he⟩
  | object _ object built =>
    obtain ⟨hw', hkey⟩ := linked_buildBean (linking_mapWithin _) (growing_mapWithin _) built hw
      htaken hfree
    refine ⟨hw', fun _ n hn => hown n hn ▸ hkey, fun he => ?_⟩
    cases s with
    | object => simp [hasEnum, Schema.isEnumeration] at he
    | _ => cases object
  | enumeration built =>
    obtain ⟨hw', hkey⟩ := linked_buildEnum built hw htaken hfree
    exact ⟨hw', fun hb => by simp [hasBean, Schema.isObject] at hb, fun _ n hn => hown n hn ▸ hkey⟩
  | aliased _ noObject noEnumeration referred =>
    obtain ⟨hw', -⟩ := linked_referenceWith (linking_mapWithin _) referred hw
    exact ⟨hw', fun hb => by simp [hasBean, noObject] at hb,
      fun he => by simp [hasEnum, noEnumeration] at he⟩

theorem Complete.linked {components : List (String × Schema)} {w w' : Workspace}
    (h : Complete contract components w w') (hw : Linked contract w.tables) :
    w.tables.Reaches w'.tables ∧ Linked contract w'.tables ∧
      ∀ c ∈ components, c.1 ∉ Table.keys w.tables.failed → Contributed c w'.tables := by
  induction h with
  | done => exact ⟨Reaches.refl _, hw, by simp⟩
  | skip failed _ ih =>
    obtain ⟨hreaches, hw', hall⟩ := ih hw
    refine ⟨hreaches, hw', ?_⟩
    intro c hc hs
    rcases List.mem_cons.mp hc with rfl | hc
    · exact absurd failed hs
    · exact hall c hc hs
  | enter sound entered _ ih =>
    obtain ⟨hfirst, hv, hcontributed⟩ := linked_mapComponent entered hw sound
    obtain ⟨hreaches, hw', hall⟩ := ih hv
    refine ⟨hfirst.trans hreaches, hw', ?_⟩
    intro c hc hs
    rcases List.mem_cons.mp hc with rfl | hc
    · exact hcontributed.reaches hreaches
    · exact hall c hc (hfirst.failed ▸ hs)

theorem LastPass.linked {w w' : Workspace} (h : LastPass contract w w') :
    Linked contract w'.tables ∧ Kept contract w'.tables := by
  obtain ⟨v, hv, hall⟩ := h
  have hblank : v.tables.Blank := hv ▸ blank_startPass contract w.tables
  obtain ⟨hreaches, hw', hcontributed⟩ := hall.linked hblank.linked
  refine ⟨hw', ?_, ?_⟩
  · rintro n ⟨c, hc, hform, hsound, hname⟩
    exact (hcontributed c hc (hreaches.failed ▸ hsound)).bean hform n hname
  · rintro n ⟨c, hc, hform, hsound, hname⟩
    exact (hcontributed c hc (hreaches.failed ▸ hsound)).enum hform n hname

/-- Built tables are linked, and hold every type that was promised. -/
theorem linked_of_buildTables {ds : List Diagnostic} {w w' : Workspace}
    (h : buildTables contract w = .ok ds w') :
    Linked contract w'.tables ∧ Kept contract w'.tables := by
  obtain ⟨-, v, hpasses, ht⟩ := buildTables_eq_ok h
  obtain ⟨u, hlast⟩ := exists_lastPass hpasses
  exact ht ▸ hlast.linked

end Types

end ApiContract
