import Mathlib.Data.List.Sort
import ApiContract.Endpoint.Signature
import ApiContract.Proofs.Contract.Parameters

/-! # The order of parameters

The path parameters of an operation are put in the order in which the placeholders of its
template first come up, and the others keep the order in which they were declared. Reading
a contract has made sure that placeholders and path parameters agree, so that each path
parameter has a place in that order and no placeholder is left out.
-/
namespace ApiContract.Signature

open ContractReader (Declares keyOfParameter)

variable {op : Operation}

theorem idxOf_lt_of_filter {keep : String → Bool} {l : List String} {a b : String}
    (hb : keep b = true)
    (h : (l.filter keep).idxOf a < (l.filter keep).idxOf b) : l.idxOf a < l.idxOf b := by
  induction l with
  | nil => simp at h
  | cons x rest ih =>
    by_cases hx : keep x = true
    · grind
    · grind

/-- Without its repeats a list is in the order in which its entries first come up. -/
theorem pairwise_eraseDups : ∀ l : List String,
    l.eraseDups.Pairwise fun a b => l.idxOf a < l.idxOf b
  | [] => by simp
  | x :: rest => by
    have hlen : (rest.filter fun b => !b == x).length < rest.length + 1 :=
      Nat.lt_succ_of_le (List.length_filter_le _ _)
    have hkept : ∀ b ∈ (rest.filter fun b => !b == x).eraseDups, (!b == x) = true :=
      fun b hb => (List.mem_filter.mp (List.mem_eraseDups.mp hb)).2
    have hother : ∀ b ∈ (rest.filter fun b => !b == x).eraseDups, x ≠ b := by
      intro b hb he
      simpa [he] using hkept b hb
    rw [List.eraseDups_cons, List.pairwise_cons]
    constructor
    · intro b hb
      rw [List.idxOf_cons_self, List.idxOf_cons_ne _ (hother b hb)]
      exact Nat.succ_pos _
    · have hrest := pairwise_eraseDups (rest.filter fun b => !b == x)
      refine hrest.imp_of_mem fun {a b} ha hb hab => ?_
      have hlt := idxOf_lt_of_filter (hkept b hb) hab
      rw [List.idxOf_cons_ne _ (hother a ha), List.idxOf_cons_ne _ (hother b hb)]
      exact Nat.succ_lt_succ hlt
termination_by l => l.length

theorem isBoundPlace_iff {place : Scalar} : isBoundPlace place = true ↔
    place = .text "path" ∨ place = .text "query" ∨ place = .text "header" := by
  simp [isBoundPlace, boundPlaces, Scalar.beq_text_iff]

theorem perm_places {ps : List Parameter} (h : ∀ p ∈ ps, isBoundPlace p.place = true) :
    ((ps.filter fun p => p.place == .text "path") ++
      (ps.filter fun p => p.place == .text "header") ++
      (ps.filter fun p => p.place == .text "query")).Perm ps := by
  induction ps with
  | nil => exact .refl _
  | cons p rest ih =>
    obtain ⟨hp, hrest⟩ := List.forall_mem_cons.mp h
    have hperm := ih hrest
    rcases isBoundPlace_iff.mp hp with hp | hp | hp
    · simpa [List.filter_cons, hp] using hperm
    · simp only [List.filter_cons, hp, Scalar.text_beq_text]
      exact List.perm_middle.trans (hperm.cons p)
    · simp only [List.filter_cons, hp, Scalar.text_beq_text]
      rw [List.append_assoc] at hperm ⊢
      exact List.perm_middle.trans (hperm.cons p)

/-- Where a name first comes up among the placeholders of an operation. -/
def nameIndex (op : Operation) (name : Scalar) : Nat :=
  (Path.placeholders op.path).findIdx fun n => name == .text n

@[simp] theorem nameIndex_text (op : Operation) (n : String) :
    nameIndex op (.text n) = (Path.placeholders op.path).idxOf n := by
  simp [nameIndex, List.idxOf, BEq.comm]

def pathParameters (op : Operation) : List Parameter :=
  (parametersIn op "path").mergeSort fun a b => nameIndex op a.name ≤ nameIndex op b.name

theorem orderedParameters_eq (op : Operation) :
    orderedParameters op =
      pathParameters op ++ parametersIn op "header" ++ parametersIn op "query" :=
  rfl

theorem mem_parametersIn {place : String} {p : Parameter} :
    p ∈ parametersIn op place ↔ p ∈ op.parameters ∧ p.place = .text place := by
  simp [parametersIn, Scalar.beq_text_iff]

theorem perm_pathParameters (op : Operation) :
    (pathParameters op).Perm (parametersIn op "path") := List.mergeSort_perm _ _

theorem exists_placeholder (declares : Declares op) {p : Parameter}
    (hp : p ∈ parametersIn op "path") : ∃ n ∈ Path.placeholders op.path, p.name = .text n :=
  declares.occurring p (mem_parametersIn.mp hp).1 (mem_parametersIn.mp hp).2

theorem nodup_names (declares : Declares op) :
    ((parametersIn op "path").map Parameter.name).Nodup := by
  have hkeys := declares.nodup_keys.sublist
    (List.filter_sublist (p := fun p => p.place == .text "path") |>.map keyOfParameter)
  rw [List.Nodup, List.pairwise_map] at hkeys ⊢
  refine hkeys.imp_of_mem fun {p q} hp hq hne hname => hne ?_
  rw [keyOfParameter, keyOfParameter, (mem_parametersIn.mp hp).2, (mem_parametersIn.mp hq).2, hname]

theorem pairwise_nameIndex (op : Operation) : (pathParameters op).Pairwise fun p q =>
    nameIndex op p.name ≤ nameIndex op q.name := by
  refine List.Pairwise.imp of_decide_eq_true (List.pairwise_mergeSort ?_ ?_ _)
  · simpa using fun a b c => Nat.le_trans
  · simpa using fun a b => Nat.le_total _ _

theorem pairwise_pathParameters (declares : Declares op) :
    ((pathParameters op).map Parameter.name).Pairwise
      fun x y => nameIndex op x < nameIndex op y := by
  have hnodup := ((perm_pathParameters op).map Parameter.name).nodup_iff.mpr (nodup_names declares)
  rw [List.Nodup, List.pairwise_map] at hnodup
  rw [List.pairwise_map]
  refine ((pairwise_nameIndex op).and hnodup).imp_of_mem fun {p q} hp hq ⟨hle, hne⟩ => ?_
  refine lt_of_le_of_ne hle fun he => hne ?_
  obtain ⟨m, hm, hmp⟩ := exists_placeholder declares ((perm_pathParameters op).mem_iff.mp hp)
  obtain ⟨n, -, hnq⟩ := exists_placeholder declares ((perm_pathParameters op).mem_iff.mp hq)
  rw [hmp, hnq, nameIndex_text, nameIndex_text, List.idxOf_inj hm] at he
  rw [hmp, hnq, he]

/-- There is one order of the path parameters that follows the placeholders. -/
theorem pathParameters_eq {ps : List Parameter} (hperm : ps.Perm (parametersIn op "path"))
    (h : ps.Pairwise fun p q => nameIndex op p.name < nameIndex op q.name) :
    pathParameters op = ps := by
  have hapart : (ps.map fun p => nameIndex op p.name).Nodup :=
    List.pairwise_map.mpr (h.imp Nat.ne_of_lt)
  have hp := (perm_pathParameters op).trans hperm.symm
  refine List.Perm.eq_of_pairwise (fun p q hmp hmq hpq hqp => ?_) (pairwise_nameIndex op)
    (h.imp Nat.le_of_lt) hp
  exact List.inj_on_of_nodup_map hapart (hp.mem_iff.mp hmp) hmq (Nat.le_antisymm hpq hqp)

/-- Parameters in the path come as the placeholders first come up in the template. -/
theorem names_pathParameters (declares : Declares op) :
    (pathParameters op).map Parameter.name =
      (Path.placeholders op.path).eraseDups.map Scalar.text := by
  have hfirst : ((Path.placeholders op.path).eraseDups.map Scalar.text).Pairwise fun x y =>
      nameIndex op x < nameIndex op y := by
    simpa [List.pairwise_map] using pairwise_eraseDups (Path.placeholders op.path)
  have hpairwise := pairwise_pathParameters declares
  have hnodup : ∀ {names : List Scalar},
      (names.Pairwise fun x y => nameIndex op x < nameIndex op y) → names.Nodup :=
    fun h => h.imp fun hlt => ne_of_apply_ne _ (Nat.ne_of_lt hlt)
  have hmem : ∀ name, name ∈ (pathParameters op).map Parameter.name ↔
      name ∈ (Path.placeholders op.path).eraseDups.map Scalar.text := by
    intro name
    simp only [List.mem_map, (perm_pathParameters op).mem_iff, List.mem_eraseDups]
    constructor
    · rintro ⟨p, hp, rfl⟩
      obtain ⟨n, hn, hname⟩ := exists_placeholder declares hp
      exact ⟨n, hn, hname.symm⟩
    · rintro ⟨n, hn, rfl⟩
      obtain ⟨p, hp, hplace, hname⟩ := declares.placeholders n hn
      exact ⟨p, mem_parametersIn.mpr ⟨hp, hplace⟩, hname⟩
  refine List.Perm.eq_of_pairwise (fun x y _ _ hxy hyx => absurd hxy (Nat.lt_asymm hyx))
    hpairwise hfirst ?_
  exact (List.perm_ext_iff_of_nodup (hnodup hpairwise) (hnodup hfirst)).mpr hmem

/-- Every path parameter has a place among the placeholders. -/
theorem placeholderIndex_lt (declares : Declares op) {p : Parameter}
    (hp : p ∈ parametersIn op "path") :
    placeholderIndex (Path.placeholders op.path) p < (Path.placeholders op.path).length := by
  obtain ⟨n, hn, hname⟩ := exists_placeholder declares hp
  exact List.findIdx_lt_length.mpr ⟨n, hn, by simp [hname]⟩

end ApiContract.Signature
