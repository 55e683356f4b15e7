import ApiContract.Proofs.Naming.Legal
import ApiContract.Proofs.Types.Traversal

/-! # Names that were given out are words

The tables give out a name for each component and for each type that has none, and every one
of them is a type name with a role or a number behind it. Whatever else is done with the
tables, no other name gets among those that were given out.
-/
namespace ApiContract.TypeTables

open Step

/-- Every name that was given out is a word. -/
def Worded (t : TypeTables) : Prop := ∀ n ∈ t.taken, Naming.IsWord n.toList

variable {t : TypeTables}

theorem Worded.take (h : t.Worded) {base : String} (hbase : Naming.IsWord base.toList) :
    (t.take (t.freshName base)).Worded :=
  List.forall_mem_cons.mpr ⟨hbase.fresh t.taken, h⟩

theorem worded_reset (t : TypeTables) (contract : Contract) : (t.reset contract).Worded := by
  have hall : ∀ (components : List String) (u : TypeTables), u.Worded →
      (u.reserveAll components).Worded := by
    intro components
    induction components with
    | nil => exact fun u hu => hu
    | cons c rest ih => exact fun u hu => ih _ (hu.take (Naming.isWord_typeName c))
  exact hall _ _ (by simp [Worded])

theorem worded_giveName {base : String} (hbase : Naming.IsWord base.toList) :
    Guards Worded (fun _ => false) (Types.giveName base) := by
  refine .bind .tables fun t ht => ?_
  refine .bind (.modifyTables fun u hu => ?_) fun _ _ => .pure trivial
  exact List.forall_mem_cons.mpr ⟨hbase.fresh t.taken, hu⟩

theorem worded_synthesizeName (owner : String) (role : Scalar) :
    Guards Worded (fun _ => false) (Types.synthesizeName owner role) := by
  have hrole : (Types.roleName role).Yields (fun _ => false) fun half =>
      ∀ c ∈ half.toList, Naming.isPart c = true := by
    unfold Types.roleName
    split
    · cases need .illTyped role.text? with
      | ok r => exact (Naming.isWord_typeName r).parts
      | error e => rfl
    · exact .ok (by simp)
  refine .bind (.lift hrole) fun half hhalf => worded_giveName ?_
  rw [String.toList_append]
  exact (Naming.isWord_typeName owner).append hhalf

/-- What is rolled back gets the names of the mark, which were given out before. -/
theorem upheld_worded (contract : Contract) : Upheld contract (fun _ => True) Worded where
  given := worded_synthesizeName
  component := fun _ _ _ _ _ => trivial
  bean := fun _ _ ht _ _ => ht
  enum := fun _ _ ht => ht
  resolving := fun _ _ ht => ht
  aliases := fun _ _ ht => ht
  failed := fun _ _ ht => ht
  rollback := fun _ _ ht _ => ht
  start := fun t => worded_reset t contract

end ApiContract.TypeTables
