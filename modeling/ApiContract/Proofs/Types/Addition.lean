import ApiContract.Proofs.Naming.Fresh
import ApiContract.Proofs.Step
import ApiContract.Proofs.Table
import ApiContract.Types.Names

/-! # What a step adds to the tables

A step that maps schemas never changes an entry: the tables after it are the tables
before it with an addition at the end, also when the step fails halfway. The entries
of the addition stand under names that were free before, so that rolling back to the
mark of the tables before gives exactly these tables.
-/
namespace ApiContract

/-- Entries and names that come to the tables, the latest name first. -/
structure Addition where
  beans : Table String Bean := []
  enums : Table String EnumType := []
  aliases : Table String TypeRef := []
  names : List String := []

namespace TypeTables

def extend (t : TypeTables) (a : Addition) : TypeTables :=
  { t with beans := t.beans ++ a.beans, enums := t.enums ++ a.enums,
           aliases := t.aliases ++ a.aliases, taken := a.names ++ t.taken }

/-- The names of all entries, beans first. -/
def entryNames (t : TypeTables) : List String := Table.keys t.beans ++ Table.keys t.enums

/-- Every entry stands under a name that was given out. -/
def Reserved (t : TypeTables) : Prop := ∀ n ∈ t.entryNames, n ∈ t.taken

/-- A name that was given out and has no entry yet. -/
def Free (t : TypeTables) (n : String) : Prop := n ∈ t.taken ∧ n ∉ t.entryNames

@[simp] theorem extend_nil (t : TypeTables) : t.extend {} = t := by
  simp [extend]

@[simp] theorem extend_beans (t : TypeTables) (a : Addition) :
    (t.extend a).beans = t.beans ++ a.beans := rfl

@[simp] theorem extend_enums (t : TypeTables) (a : Addition) :
    (t.extend a).enums = t.enums ++ a.enums := rfl

@[simp] theorem extend_aliases (t : TypeTables) (a : Addition) :
    (t.extend a).aliases = t.aliases ++ a.aliases := rfl

@[simp] theorem extend_taken (t : TypeTables) (a : Addition) :
    (t.extend a).taken = a.names ++ t.taken := rfl

@[simp] theorem extend_failed (t : TypeTables) (a : Addition) :
    (t.extend a).failed = t.failed := rfl

@[simp] theorem extend_typeNames (t : TypeTables) (a : Addition) :
    (t.extend a).typeNames = t.typeNames := rfl

@[simp] theorem extend_resolving (t : TypeTables) (a : Addition) :
    (t.extend a).resolving = t.resolving := rfl

theorem freshName_notMem (t : TypeTables) (base : String) : t.freshName base ∉ t.taken :=
  Naming.fresh_notMem t.taken base ""

end TypeTables

namespace Addition

def entryNames (a : Addition) : List String := Table.keys a.beans ++ Table.keys a.enums

def append (a b : Addition) : Addition :=
  { beans := a.beans ++ b.beans, enums := a.enums ++ b.enums,
    aliases := a.aliases ++ b.aliases, names := b.names ++ a.names }

theorem extend_append (t : TypeTables) (a b : Addition) :
    (t.extend a).extend b = t.extend (a.append b) := by
  simp [TypeTables.extend, append]

/-- An addition that changes nothing of the tables: its names are new and different, each
of its entries has one of them or one of the given names, and no alias comes up twice. -/
structure Fits (given : List String) (a : Addition) (t : TypeTables) : Prop where
  names : ∀ n ∈ a.names, n ∉ t.taken
  distinct : a.names.Nodup
  named : ∀ n ∈ a.entryNames, n ∈ a.names ∨ n ∈ given
  apart : a.entryNames.Nodup
  beanNames : ∀ e ∈ a.beans, e.2.name = e.1
  enumNames : ∀ e ∈ a.enums, e.2.name = e.1
  aliases : ∀ n ∈ Table.keys a.aliases, n ∉ Table.keys t.aliases ∧ n ∉ t.resolving
  aliasesApart : (Table.keys a.aliases).Nodup

theorem fits_nil (given : List String) (t : TypeTables) : Fits given {} t where
  names := by simp
  distinct := by simp
  named := by simp [entryNames]
  apart := by simp [entryNames]
  beanNames := by simp
  enumNames := by simp
  aliases := by simp
  aliasesApart := by simp

theorem Fits.mono {given : List String} {a : Addition} {t : TypeTables} (h : Fits [] a t) :
    Fits given a t :=
  { h with named := fun n hn => (h.named n hn).imp id (by simp) }

theorem Fits.notMem_entryNames {a : Addition} {t : TypeTables} (h : Fits [] a t) {n : String}
    (hn : n ∈ t.taken) : n ∉ a.entryNames := by
  intro he
  exact h.names n ((h.named n he).resolve_right (by simp)) hn

theorem mem_entryNames_append {a b : Addition} {n : String} :
    n ∈ (a.append b).entryNames ↔ n ∈ a.entryNames ∨ n ∈ b.entryNames := by
  simp only [entryNames, append, Table.keys_append, List.mem_append]
  tauto

theorem nodup_entryNames_append {a b : Addition} (ha : a.entryNames.Nodup)
    (hb : b.entryNames.Nodup) (hab : ∀ n ∈ a.entryNames, n ∉ b.entryNames) :
    (a.append b).entryNames.Nodup := by
  have hall : (a.entryNames ++ b.entryNames).Nodup :=
    List.Nodup.append ha hb fun n hna hnb => hab n hna hnb
  have hp : (a.append b).entryNames.Perm (a.entryNames ++ b.entryNames) := by
    simp only [entryNames, append, Table.keys_append, List.append_assoc]
    apply List.Perm.append_left
    simp only [← List.append_assoc]
    exact List.Perm.append_right _ List.perm_append_comm
  exact hp.nodup_iff.mpr hall

/-- Two additions in a row. The second may also use names that the first gave out and
left without an entry. -/
theorem Fits.append {given own : List String} {a b : Addition} {t : TypeTables}
    (ha : Fits given a t) (hb : Fits own b (t.extend a)) (hg : ∀ n ∈ given, n ∈ t.taken)
    (ho : ∀ n ∈ own, (n ∈ a.names ∨ n ∈ given) ∧ n ∉ a.entryNames) :
    Fits given (a.append b) t where
  names := by
    intro n hn
    rcases List.mem_append.mp hn with hn | hn
    · exact fun ht => hb.names n hn (List.mem_append_right _ ht)
    · exact ha.names n hn
  distinct := hb.distinct.append ha.distinct fun n hnb hna =>
    hb.names n hnb (List.mem_append_left _ hna)
  named := by
    intro n hn
    rcases mem_entryNames_append.mp hn with hn | hn
    · exact (ha.named n hn).imp (List.mem_append_right _) id
    · rcases hb.named n hn with hn | hn
      · exact Or.inl (List.mem_append_left _ hn)
      · exact (ho n hn).1.imp (List.mem_append_right _) id
  apart := by
    apply nodup_entryNames_append ha.apart hb.apart
    intro n hna hnb
    rcases hb.named n hnb with hn | hn
    · have hnew : n ∉ (t.extend a).taken := hb.names n hn
      rcases ha.named n hna with h | h
      · exact hnew (List.mem_append_left _ h)
      · exact hnew (List.mem_append_right _ (hg n h))
    · exact (ho n hn).2 hna
  beanNames := by
    intro e he
    exact (List.mem_append.mp he).elim (ha.beanNames e) (hb.beanNames e)
  enumNames := by
    intro e he
    exact (List.mem_append.mp he).elim (ha.enumNames e) (hb.enumNames e)
  aliases := by
    intro n hn
    simp only [Addition.append, Table.keys_append, List.mem_append] at hn
    rcases hn with hn | hn
    · exact ha.aliases n hn
    · obtain ⟨hk, hr⟩ := hb.aliases n hn
      simp only [TypeTables.extend_aliases, Table.keys_append, List.mem_append, not_or] at hk
      exact ⟨hk.1, hr⟩
  aliasesApart := by
    simp only [Addition.append, Table.keys_append]
    apply List.Nodup.append ha.aliasesApart hb.aliasesApart
    intro n hna hnb
    have hk := (hb.aliases n hnb).1
    simp only [TypeTables.extend_aliases, Table.keys_append, List.mem_append, not_or] at hk
    exact hk.2 hna

end Addition

namespace TypeTables

open Addition

theorem mem_entryNames_extend {t : TypeTables} {a : Addition} {n : String} :
    n ∈ (t.extend a).entryNames ↔ n ∈ t.entryNames ∨ n ∈ a.entryNames := by
  simp only [entryNames, Addition.entryNames, extend_beans, extend_enums, Table.keys_append,
    List.mem_append]
  tauto

theorem Reserved.extend {given : List String} {t : TypeTables} {a : Addition} (h : t.Reserved)
    (hg : ∀ n ∈ given, n ∈ t.taken) (ha : Fits given a t) : (t.extend a).Reserved := by
  intro n hn
  rcases mem_entryNames_extend.mp hn with hn | hn
  · exact List.mem_append_right _ (h n hn)
  · rcases ha.named n hn with hn | hn
    · exact List.mem_append_left _ hn
    · exact List.mem_append_right _ (hg n hn)

/-- The tables after are the tables before with an addition, which may use free names
that were given out for it. -/
def GrowsWith (given : List String) (t t' : TypeTables) : Prop :=
  t.Reserved → (∀ n ∈ given, t.Free n) → ∃ a, Fits given a t ∧ t' = t.extend a

def Grows (t t' : TypeTables) : Prop := t.Reserved → ∃ a, Fits [] a t ∧ t' = t.extend a

theorem Grows.refl (t : TypeTables) : t.Grows t := fun _ => ⟨{}, fits_nil [] t, by simp⟩

theorem Grows.trans {t u v : TypeTables} (htu : t.Grows u) (huv : u.Grows v) : t.Grows v := by
  intro ht
  obtain ⟨a, ha, rfl⟩ := htu ht
  obtain ⟨b, hb, rfl⟩ := huv (ht.extend (by simp) ha)
  exact ⟨a.append b, ha.append hb (by simp) (by simp), extend_append t a b⟩

theorem Grows.growsWith {t t' : TypeTables} (h : t.Grows t') (given : List String) :
    t.GrowsWith given t' := by
  intro ht _
  obtain ⟨a, ha, he⟩ := h ht
  exact ⟨a, ha.mono, he⟩

instance : Std.Refl Grows := ⟨Grows.refl⟩

instance : IsTrans TypeTables Grows := ⟨fun _ _ _ => Grows.trans⟩

theorem Grows.reserved {t t' : TypeTables} (h : t.Grows t') (ht : t.Reserved) : t'.Reserved := by
  obtain ⟨a, ha, rfl⟩ := h ht
  exact ht.extend (by simp) ha

/-- Rolling back an addition to the mark before it gives the tables before it. -/
theorem rollback_extend {given : List String} {t : TypeTables} {a : Addition}
    (ha : Fits given a t) : (t.extend a).rollback t.mark = t := by
  have hbeans : (t.beans ++ a.beans).take t.mark.beans = t.beans := List.take_left
  have henums : (t.enums ++ a.enums).take t.mark.enums = t.enums := List.take_left
  have hkept : ∀ e ∈ t.aliases, e.1 ∈ t.mark.aliases := fun e he => Table.mem_keys_of_mem he
  have hdropped : ∀ e ∈ a.aliases, e.1 ∉ t.mark.aliases := fun e he =>
    (ha.aliases e.1 (Table.mem_keys_of_mem he)).1
  have haliases : (t.aliases ++ a.aliases).filter (fun e => e.1 ∈ t.mark.aliases) =
      t.aliases := by
    rw [List.filter_append, List.filter_eq_self.mpr (by simpa using hkept),
      List.filter_eq_nil_iff.mpr (by simpa using hdropped), List.append_nil]
  simp only [rollback, extend_beans, extend_enums, extend_aliases, hbeans, henums, haliases]
  rfl

theorem Grows.rollback {t t' : TypeTables} (h : t.Grows t') (ht : t.Reserved) :
    t'.rollback t.mark = t := by
  obtain ⟨a, ha, rfl⟩ := h ht
  exact rollback_extend ha

end TypeTables

end ApiContract
