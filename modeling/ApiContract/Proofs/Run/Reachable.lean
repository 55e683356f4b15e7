import ApiContract.Proofs.Endpoint.Signing
import ApiContract.Proofs.Types.WellNamed

/-! # The tables that calls lead to

The tables of a run change by calls that map schemas, by builds, and by going back to a
mark that was taken before. Marks are used in pairs, the latest first, and no build comes
between the two of a pair. Whatever the order of all this, the tables stay well named:
the tables at a mark are a beginning of those after it, so that going back gives them.
-/
namespace ApiContract.Types

open TypeTables Addition

variable {contract : Contract} {t t' u : TypeTables}

/-- A call that maps schemas or gives a name out, however it ends. -/
inductive Call (contract : Contract) : TypeTables → TypeTables → Prop
  | mapSchema (schema : Option Schema) (owner : String) (role : Scalar) (w : Workspace) :
      Call contract w.tables (Step.outcome (mapSchema contract schema owner role w)).2
  | reference (name location : String) (w : Workspace) :
      Call contract w.tables (Step.outcome (reference contract name location w)).2
  | synthesizeName (owner : String) (role : Scalar) (w : Workspace) :
      Call contract w.tables (Step.outcome (synthesizeName owner role w)).2
  | resolve (settings : Settings) (op : Operation) (method : String) (w : Workspace) :
      Call contract w.tables (Step.outcome (Signature.resolve contract settings op method w)).2

/-- Tables that fresh ones are led to, with the marks that are still open, the latest
first. A mark is closed by going back to it or by forgetting it. -/
inductive Reachable (contract : Contract) : List Mark → TypeTables → Prop
  | fresh : Reachable contract [] (Workspace.fresh contract).tables
  | call {marks : List Mark} {t t' : TypeTables} (before : Reachable contract marks t)
      (called : Call contract t t') : Reachable contract marks t'
  | build {w : Workspace} (before : Reachable contract [] w.tables) :
      Reachable contract [] (Step.outcome (buildTables contract w)).2
  | mark {marks : List Mark} {t : TypeTables} (before : Reachable contract marks t) :
      Reachable contract (t.mark :: marks) t
  | rollback {mark : Mark} {marks : List Mark} {t : TypeTables}
      (before : Reachable contract (mark :: marks) t) : Reachable contract marks (t.rollback mark)
  | forget {mark : Mark} {marks : List Mark} {t : TypeTables}
      (before : Reachable contract (mark :: marks) t) : Reachable contract marks t

theorem keeps_synthesizeName (owner : String) (role : Scalar) :
    Step.Keeps Grows (synthesizeName owner role) := by
  intro w
  cases hs : synthesizeName owner role w with
  | ok name v =>
    obtain ⟨hnew, rfl⟩ := synthesizeName_eq_ok hs
    intro _
    exact ⟨_, fits_name hnew, take_eq_extend _ _⟩
  | error e v =>
    rw [synthesizeName_eq_error hs]
    exact Grows.refl _

theorem Call.grows (h : Call contract t t') : t.Grows t' := by
  cases h with
  | mapSchema schema owner role w => exact growing_mapSchema schema owner role w
  | reference name location w => exact keeps_reference name location w
  | synthesizeName owner role w => exact keeps_synthesizeName owner role w
  | resolve settings op method w => exact Signature.keeps_resolve op method w

/-- Each open mark is that of well-named tables which those after it began with. -/
def Rests (contract : Contract) : List Mark → TypeTables → Prop
  | [], _ => True
  | mark :: marks, t =>
    ∃ u : TypeTables, mark = u.mark ∧ WellNamed contract u ∧ Rests contract marks u ∧ u.Grows t

theorem Rests.grows {marks : List Mark} (h : Rests contract marks t) (hg : t.Grows t') :
    Rests contract marks t' := by
  cases marks with
  | nil => trivial
  | cons mark marks =>
    obtain ⟨u, hm, hu, hrest, hut⟩ := h
    exact ⟨u, hm, hu, hrest, hut.trans hg⟩

theorem Reachable.rests (distinct : (Table.keys contract.schemas).Nodup) {marks : List Mark}
    (h : Reachable contract marks t) : WellNamed contract t ∧ Rests contract marks t := by
  induction h with
  | fresh => exact ⟨wellNamed_reset {} contract, trivial⟩
  | call _ called ih => exact ⟨ih.1.grows called.grows, ih.2.grows called.grows⟩
  | build _ ih => exact ⟨wellNamed_buildTables distinct ih.1, trivial⟩
  | mark _ ih => exact ⟨ih.1, _, rfl, ih.1, ih.2, Grows.refl _⟩
  | rollback _ ih =>
    obtain ⟨-, u, rfl, hu, hrest, hg⟩ := ih
    rw [hg.rollback hu.reserved]
    exact ⟨hu, hrest⟩
  | forget _ ih =>
    obtain ⟨ht, u, -, -, hrest, hg⟩ := ih
    exact ⟨ht, hrest.grows hg⟩

/-- A name that is given out next stands for no entry and for no component. -/
theorem unused_of_synthesizeName {owner name : String} {role : Scalar} {w w' : Workspace}
    (hw : w.tables.Consistent) (h : synthesizeName owner role w = .ok name w') :
    name ∉ w.tables.entryNames ∧ ∀ c, Table.get? w.tables.typeNames c ≠ some name := by
  have hnew := (synthesizeName_eq_ok h).1
  exact ⟨fun hn => hnew (hw.reserved name hn), fun c hc => hnew (hw.named.taken c name hc)⟩

/-- In a pass from any tables, every component is entered into well-named tables, and
entering it only appends. -/
theorem appends_mapComponent (distinct : (Table.keys contract.schemas).Nodup)
    {before after : List (String × Schema)} {c : String × Schema} {v w : Workspace}
    (split : contract.schemas = before ++ c :: after) (start : v.tables = startPass contract u)
    (passed : Complete contract before v w) :
    WellNamed contract w.tables ∧
      Appends w.tables (Step.outcome (mapComponent contract c.1 c.2 w)).2 := by
  have hstart : Waiting contract (before ++ c :: after) v.tables :=
    start ▸ waiting_startPass contract _ u
  have hw := passed.waiting hstart (fun d hd => by simp [split, hd]) (split ▸ distinct)
  have hd : (Table.keys (c :: after)).Nodup := by
    rw [split, Table.keys_append] at distinct
    exact (List.nodup_append.mp distinct).2.1
  obtain ⟨-, a, -, -, he, -⟩ := waiting_mapComponent hw (by simp [split]) hd
  exact ⟨hw.toWellNamed, he ▸ appends_extend w.tables a⟩

/-- In all reachable tables the names tell types and components apart, a name that is given
out is that of no entry and of no component, and no call and no entering of a component
changes an entry that is there. As in any mapping no component is declared twice. -/
theorem wellNamed_of_reachable (distinct : (Table.keys contract.schemas).Nodup)
    {marks : List Mark} (reachable : Reachable contract marks t) :
    WellNamed contract t ∧
      (∀ owner role w name w', w.tables = t → synthesizeName owner role w = .ok name w' →
        name ∉ t.entryNames ∧ ∀ c, Table.get? t.typeNames c ≠ some name) ∧
      (∀ t', Call contract t t' → Appends t t') ∧
      ∀ before c after u v w, contract.schemas = before ++ c :: after →
        v.tables = startPass contract u → Complete contract before v w →
        WellNamed contract w.tables ∧
          Appends w.tables (Step.outcome (mapComponent contract c.1 c.2 w)).2 := by
  obtain ⟨ht, -⟩ := reachable.rests distinct
  refine ⟨ht, ?_, fun t' called => called.grows.appends ht.reserved, ?_⟩
  · rintro owner role w name w' rfl h
    exact unused_of_synthesizeName ht.toConsistent h
  · intro before c after u v w split start passed
    exact appends_mapComponent distinct split start passed

/-- Three components whose names all become that of one type, the last with a number. -/
def labelContract : Contract :=
  { title := "Labels", version := "1",
    schemas := [
      ("foo-bar", .object { location := "#/components/schemas/foo-bar" }
        [(.text "size", .enumeration { location := "#/size" } (.text "string") [.text "small"])]
        [] []),
      ("FooBar", .enumeration { location := "#/components/schemas/FooBar" } (.text "string")
        [.text "a"]),
      ("Foo_bar2", .object { location := "#/components/schemas/Foo_bar2" } [] [] [])] }

def labelTables : TypeTables :=
  (Step.outcome (buildTables labelContract (.fresh labelContract))).2

/-- The label tables after one more name was given out behind a mark. -/
def markedTables : TypeTables :=
  (Step.outcome (synthesizeName "foo" (.text "bar") { tables := labelTables })).2

theorem wellNamed_of_reachable_labels :
    Reachable labelContract [labelTables.mark] markedTables ∧
      markedTables.taken = ["FooBar3", "FooBarSize", "FooBar22", "FooBar2", "FooBar"] ∧
      markedTables.entryNames = ["FooBar", "FooBar22", "FooBarSize", "FooBar2"] ∧
      WellNamed labelContract markedTables := by
  have hbuilt : Reachable labelContract [] labelTables :=
    .build (w := .fresh labelContract) .fresh
  have hmarked : Reachable labelContract [labelTables.mark] markedTables :=
    .call hbuilt.mark (.synthesizeName "foo" (.text "bar") { tables := labelTables })
  have distinct : (Table.keys labelContract.schemas).Nodup := by decide
  exact ⟨hmarked, by decide +kernel, by decide +kernel,
    (wellNamed_of_reachable distinct hmarked).1⟩

end ApiContract.Types
