import ApiContract.Proofs.Contract.Parts

/-! # Fields rewritten by their names

Rewriting the values of a map by the names of their fields leaves every field where it was,
with the rewritten value. A field that is left out is gone, and a field put behind the others
is found where none of them has its name.
-/
namespace ApiContract

/-- A map with its fields replaced; what is no map stays as it is. -/
def Tree.mapFields (f : Fields → Fields) (t : Tree) : Tree :=
  match t.fields? with
  | some fields => .map (f fields)
  | none => t

@[simp] theorem Tree.fields?_mapFields (f : Fields → Fields) (t : Tree) :
    (t.mapFields f).fields? = t.fields?.map f := by
  unfold mapFields
  cases h : t.fields? with
  | some fields => rfl
  | none => exact h

theorem Tree.mapFields_of_fields? {f : Fields → Fields} {t : Tree} {fields : Fields}
    (h : t.fields? = some fields) : t.mapFields f = .map (f fields) := by
  rw [mapFields, h]

theorem Tree.mapFields_of_fields?_eq_none {f : Fields → Fields} {t : Tree}
    (h : t.fields? = none) : t.mapFields f = t := by
  rw [mapFields, h]

namespace Fields

variable {fields : Fields} {f : String → Tree → Tree} {k : String}

/-- The value of an entry, rewritten by the name of the field if the key is a name. -/
def rewritten (f : String → Tree → Tree) (e : Scalar × Tree) : Tree :=
  match e.1.text? with
  | some k => f k e.2
  | none => e.2

theorem rewritten_of_text? {e : Scalar × Tree} (h : e.1.text? = some k) :
    rewritten f e = f k e.2 := by
  rw [rewritten, h]

/-- Rewrites the value of each field by the name of the field. -/
def rewrite (f : String → Tree → Tree) (fields : Fields) : Fields :=
  fields.map fun e => (e.1, rewritten f e)

/-- The fields but those of the names. -/
def without (names : List String) (fields : Fields) : Fields :=
  fields.filter fun e => !e.1.text?.any (· ∈ names)

@[simp] theorem field?_nil : field? [] k = none := rfl

theorem field?_cons (e : Scalar × Tree) (rest : Fields) :
    field? (e :: rest) k = if e.1.text? = some k then some e.2 else field? rest k := by
  by_cases he : e.1.text? = some k
  · have hk := Scalar.text?_eq_some.mp he
    simp [field?, Table.get?, hk, Scalar.text?]
  · have hk : (e.1 == .text k) = false := by
      rw [← Bool.not_eq_true, Scalar.beq_text_iff, ← Scalar.text?_eq_some]
      exact he
    simp [field?, Table.get?, hk, he]

@[simp] theorem field?_rewrite : field? (rewrite f fields) k = (field? fields k).map (f k) := by
  induction fields with
  | nil => rfl
  | cons e rest ih =>
    have hcons : rewrite f (e :: rest) = (e.1, rewritten f e) :: rewrite f rest := rfl
    rw [hcons, field?_cons, field?_cons]
    by_cases he : e.1.text? = some k
    · simp [he, rewritten_of_text? he]
    · simp [he, ih]

theorem hasField_eq : hasField fields k = (field? fields k).isSome := by
  rw [Bool.eq_iff_iff]
  simp [hasField, Table.has, field?, Table.get?, List.any_eq_true, List.find?_isSome]

@[simp] theorem hasField_rewrite : hasField (rewrite f fields) k = hasField fields k := by
  rw [hasField_eq, hasField_eq, field?_rewrite, Option.isSome_map]

theorem field?_append (others : Fields) :
    field? (fields ++ others) k = (field? fields k).or (field? others k) := by
  simp [field?, Table.get?, List.find?_append, Option.map_or]

theorem field?_without {names : List String} :
    field? (without names fields) k = if k ∈ names then none else field? fields k := by
  induction fields with
  | nil => simp [without]
  | cons e rest ih =>
    rw [field?_cons]
    by_cases hout : e.1.text?.any (· ∈ names) = true
    · have hskip : without names (e :: rest) = without names rest :=
        List.filter_cons_of_neg (by simpa using hout)
      rw [hskip, ih]
      by_cases hk : k ∈ names
      · simp [hk]
      · have hne : e.1.text? ≠ some k := by
          intro he
          simp [he, hk] at hout
        simp [hk, hne]
    · have hkeep : without names (e :: rest) = e :: without names rest :=
        List.filter_cons_of_pos (by simpa using hout)
      rw [hkeep, field?_cons, ih]
      by_cases he : e.1.text? = some k
      · have hk : k ∉ names := by simpa [he] using hout
        simp [he, hk]
      · simp [he]

theorem size_le_of_field? {v : Tree} (h : field? fields k = some v) :
    v.size ≤ Tree.entriesSize fields := by
  obtain ⟨e, he, rfl⟩ := Option.map_eq_some_iff.mp h
  exact Tree.size_le_entriesSize (List.mem_of_find?_eq_some he)

end Fields

end ApiContract
