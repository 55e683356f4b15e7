import Mathlib.Data.List.Forall2
import Mathlib.Data.List.Induction
import Mathlib.Data.List.Nodup
import Mathlib.Data.List.Perm.Basic
import ApiContract.Table

/-! # Laws of ordered tables

A table is known by its keys and by the value under each of them. Writing keeps the
keys apart, changes the value under one key only, and appends when the key is new.
A table whose keys are apart gives the same values in any order of its entries. Rewriting the
values of a table, or leaving out a class of its keys, can be done before the writes or after.
-/
namespace ApiContract.Table

variable {α β γ δ : Type}

@[simp] theorem keys_nil : keys ([] : Table α β) = [] := rfl

@[simp] theorem keys_cons (e : α × β) (t : Table α β) : keys (e :: t) = e.1 :: keys t := rfl

@[simp] theorem keys_append (s t : Table α β) : keys (s ++ t) = keys s ++ keys t :=
  List.map_append

theorem mem_keys_of_mem {t : Table α β} {e : α × β} (h : e ∈ t) : e.1 ∈ keys t :=
  List.mem_map_of_mem h

theorem mem_values {t : Table α β} {v : β} : v ∈ values t ↔ ∃ e ∈ t, e.2 = v := List.mem_map

theorem map_values {t : Table α β} {f : β → α} (h : ∀ e ∈ t, f e.2 = e.1) :
    (values t).map f = keys t := by
  rw [values, keys, List.map_map]
  exact List.map_congr_left h

/-- Whatever keys count as the same, a value that is there after a write was there before,
or it is the one that was written. -/
theorem mem_values_put [BEq α] {t : Table α β} {k : α} {v w : β} (h : w ∈ values (put t k v)) :
    w ∈ values t ∨ w = v := by
  induction t with
  | nil => exact Or.inr (by simpa [put, values] using h)
  | cons e rest ih =>
    by_cases hk : (e.1 == k) = true
    · simp only [put, hk, if_true, values, List.map_cons, List.mem_cons] at h ⊢
      rcases h with h | h
      · exact Or.inr h
      · exact Or.inl (Or.inr h)
    · simp only [put, hk, Bool.false_eq_true, if_false, values, List.map_cons,
        List.mem_cons] at h ⊢
      rcases h with h | h
      · exact Or.inl (Or.inl h)
      · exact (ih h).imp_left Or.inr

/-- A write keeps the keys and changes the value of one of them, or adds an entry. -/
theorem forall_mem_put [BEq α] {K : α → Prop} {Q : β → Prop} {t : Table α β} {k : α} {v : β}
    (ht : ∀ e ∈ t, K e.1 ∧ Q e.2) (hv : K k ∧ Q v) : ∀ e ∈ put t k v, K e.1 ∧ Q e.2 := by
  induction t with
  | nil => exact List.forall_mem_singleton.mpr hv
  | cons e rest ih =>
    obtain ⟨he, hrest⟩ := List.forall_mem_cons.mp ht
    by_cases hk : (e.1 == k) = true
    · simp only [put, hk, if_true]
      exact List.forall_mem_cons.mpr ⟨⟨he.1, hv.2⟩, hrest⟩
    · simp only [put, hk, Bool.false_eq_true, if_false]
      exact List.forall_mem_cons.mpr ⟨he, ih hrest⟩

theorem mem_values_ofPairs [BEq α] {pairs : List (α × β)} {v : β} (h : v ∈ values (ofPairs pairs)) :
    v ∈ pairs.map Prod.snd := by
  have hfold : ∀ t : Table α β, v ∈ values (pairs.foldl (fun t e => put t e.1 e.2) t) →
      v ∈ values t ∨ v ∈ pairs.map Prod.snd := by
    clear h
    induction pairs with
    | nil => exact fun t h => Or.inl h
    | cons e rest ih =>
      intro t h
      rcases ih _ h with h | h
      · rcases mem_values_put h with h | h
        · exact Or.inl h
        · exact Or.inr (by simp [h])
      · exact Or.inr (List.mem_cons_of_mem _ h)
  exact (hfold [] h).resolve_left (by simp [values])

section

variable [BEq α]

theorem mem_keys_of_mem_put {t : Table α β} {k l : α} {v : β} (h : l ∈ keys (put t k v)) :
    l ∈ keys t ∨ l = k := by
  by_cases hk : has t k = true
  · rw [keys_put_of_has v hk] at h
    exact Or.inl h
  · rw [put_of_not_has v (Bool.not_eq_true _ ▸ hk), keys_append, List.mem_append] at h
    exact h.imp_right fun h => by simpa using h

theorem mem_keys_of_mem_ofPairs {pairs : List (α × β)} {k : α} (h : k ∈ keys (ofPairs pairs)) :
    k ∈ keys pairs := by
  have hfold : ∀ t : Table α β, k ∈ keys (pairs.foldl (fun t e => put t e.1 e.2) t) →
      k ∈ keys t ∨ k ∈ keys pairs := by
    clear h
    induction pairs with
    | nil => exact fun t h => Or.inl h
    | cons e rest ih =>
      intro t h
      rcases ih _ h with h | h
      · rcases mem_keys_of_mem_put h with h | rfl
        · exact Or.inl h
        · exact Or.inr List.mem_cons_self
      · exact Or.inr (List.mem_cons_of_mem _ h)
  exact (hfold [] h).resolve_left (by simp [keys])

/-- Writing under a key of a class changes the entries of that class only, and there it is
the same as writing among them. -/
theorem filter_put {p : α → Bool} (hp : ∀ a b, (a == b) = true → p a = p b) (t : Table α β)
    (k : α) (v : β) : (put t k v).filter (fun e => p e.1) =
      if p k then put (t.filter fun e => p e.1) k v else t.filter fun e => p e.1 := by
  induction t with
  | nil => cases hk : p k <;> simp [put, hk]
  | cons e rest ih =>
    by_cases he : (e.1 == k) = true
    · have hsame := hp _ _ he
      cases hk : p k <;> simp [put, he, hsame, hk]
    · cases hpe : p e.1 <;> cases hk : p k <;> simp_all [put]

theorem map_put [BEq γ] {f : α → γ} {g : β → δ} {t : Table α β} {k : α}
    (hf : ∀ e ∈ t, (f e.1 == f k) = (e.1 == k)) (v : β) :
    (put t k v).map (Prod.map f g) = put (t.map (Prod.map f g)) (f k) (g v) := by
  induction t with
  | nil => rfl
  | cons e rest ih =>
    have he := hf e List.mem_cons_self
    have hrest := ih fun d hd => hf d (List.mem_cons_of_mem _ hd)
    by_cases hk : (e.1 == k) = true
    · simp [put, he, hk]
    · simp [put, he, hk, hrest]

theorem map_ofPairs (g : β → δ) (pairs : List (α × β)) :
    (ofPairs pairs).map (Prod.map id g) = ofPairs (pairs.map (Prod.map id g)) := by
  have hfold : ∀ t : Table α β, (pairs.foldl (fun t e => put t e.1 e.2) t).map (Prod.map id g) =
      (pairs.map (Prod.map id g)).foldl (fun t e => put t e.1 e.2) (t.map (Prod.map id g)) := by
    induction pairs with
    | nil => exact fun t => rfl
    | cons e rest ih =>
      intro t
      rw [List.foldl_cons, ih, map_put (fun _ _ => rfl)]
      rfl
  exact hfold []

theorem forall₂_put {R : β → δ → Prop} {s : Table α β} {t : Table α δ}
    (h : List.Forall₂ (fun e e' => e'.1 = e.1 ∧ R e.2 e'.2) s t) (k : α) {v : β} {w : δ}
    (hv : R v w) : List.Forall₂ (fun e e' => e'.1 = e.1 ∧ R e.2 e'.2) (put s k v) (put t k w) := by
  induction h with
  | nil => exact .cons ⟨rfl, hv⟩ .nil
  | @cons e e' rest rest' he hrest ih =>
    by_cases hk : (e.1 == k) = true
    · simpa [put, hk, he.1] using ⟨hv, hrest⟩
    · simpa [put, hk, he.1] using ⟨he.2, ih⟩

end

section

variable [BEq α]

/-- No two entries of the table have keys that count as the same. -/
def KeysApart {α β : Type} [BEq α] (t : Table α β) : Prop :=
  (keys t).Pairwise fun k l => (k == l) = false

theorem KeysApart.put {t : Table α β} (h : KeysApart t) (k : α) (v : β) :
    KeysApart (put t k v) := by
  unfold KeysApart
  by_cases hk : has t k = true
  · rw [keys_put_of_has v hk]
    exact h
  · have hnone : ∀ l ∈ keys t, (l == k) = false := by simpa [has, keys] using hk
    rw [put_of_not_has v (Bool.not_eq_true _ ▸ hk), keys_append]
    exact List.pairwise_append.mpr ⟨h, List.pairwise_singleton _ _, by simpa using hnone⟩

/-- A second write under a key replaces the first one. -/
theorem put_put_of_beq [PartialEquivBEq α] {k l : α} (h : (k == l) = true) (t : Table α β)
    (v w : β) : put (put t k v) l w = put t k w := by
  induction t with
  | nil => simp [put, h]
  | cons e rest ih =>
    by_cases he : (e.1 == k) = true
    · simp [put, he, PartialEquivBEq.trans he h]
    · have hl : ¬ (e.1 == l) = true := fun hl =>
        he (PartialEquivBEq.trans hl (PartialEquivBEq.symm h))
      simp only [put, he, hl, Bool.false_eq_true, if_false, ih]

theorem put_put_comm [PartialEquivBEq α] {k l : α} (h : (k == l) = false) {t : Table α β}
    (hk : has t k = true) (v w : β) : put (put t l w) k v = put (put t k v) l w := by
  induction t with
  | nil => cases hk
  | cons e rest ih =>
    by_cases hek : (e.1 == k) = true
    · have hel : (e.1 == l) = false := Bool.eq_false_iff.mpr fun hel =>
        Bool.eq_false_iff.mp h (PartialEquivBEq.trans (PartialEquivBEq.symm hek) hel)
      simp [put, hek, hel]
    · have hrest : has rest k = true := by simpa [has, hek] using hk
      by_cases hel : (e.1 == l) = true
      · simp [put, hek, hel]
      · simp [put, hek, hel, ih hrest]

theorem has_cons (e : α × β) (t : Table α β) (k : α) : has (e :: t) k = (e.1 == k || has t k) :=
  List.any_cons

theorem has_put [PartialEquivBEq α] (t : Table α β) (k l : α) (v : β) :
    has (put t k v) l = (has t l || k == l) := by
  induction t with
  | nil => simp [put, has]
  | cons e rest ih =>
    by_cases he : (e.1 == k) = true
    · have hsame : (k == l) = true → (e.1 == l) = true := PartialEquivBEq.trans he
      cases hkl : (k == l) with
      | false => simp [put, he, has_cons]
      | true => simp [put, he, has_cons, hsame hkl]
    · simp [put, he, has_cons, ih, Bool.or_assoc]

/-- A write under a key that is there already can stand before other writes or after them. -/
theorem put_foldl_put [PartialEquivBEq α] {k : α} {pairs : List (α × β)}
    (other : ∀ e ∈ pairs, (k == e.1) = false) {t : Table α β} (hk : has t k = true) (v : β) :
    put (pairs.foldl (fun t e => put t e.1 e.2) t) k v =
      pairs.foldl (fun t e => put t e.1 e.2) (put t k v) := by
  induction pairs generalizing t with
  | nil => rfl
  | cons e rest ih =>
    have hput : has (put t e.1 e.2) k = true := by rw [has_put, hk, Bool.true_or]
    rw [List.foldl_cons, List.foldl_cons, ih (fun d hd => other d (List.mem_cons_of_mem _ hd)) hput,
      put_put_comm (other e List.mem_cons_self) hk]

theorem foldl_put_put [PartialEquivBEq α] {t : Table α β} (apart : KeysApart t) (k : α) (v : β)
    (a : Table α β) : (put t k v).foldl (fun a e => put a e.1 e.2) a =
      put (t.foldl (fun a e => put a e.1 e.2) a) k v := by
  induction t generalizing a with
  | nil => rfl
  | cons e rest ih =>
    obtain ⟨hfirst, hrest⟩ := List.pairwise_cons.mp apart
    by_cases he : (e.1 == k) = true
    · have hother : ∀ d ∈ rest, (k == d.1) = false := fun d hd =>
        Bool.eq_false_iff.mpr fun hkd =>
          Bool.eq_false_iff.mp (hfirst d.1 (mem_keys_of_mem hd)) (PartialEquivBEq.trans he hkd)
      have hhas : has (put a e.1 e.2) k = true := by rw [has_put, he, Bool.or_true]
      simp only [put, he, if_true, List.foldl_cons]
      rw [put_foldl_put hother hhas, put_put_of_beq he]
    · simp only [put, he, Bool.false_eq_true, if_false, List.foldl_cons]
      exact ih hrest _

theorem KeysApart.foldl_put {t : Table α β} (h : KeysApart t) (pairs : List (α × β)) :
    KeysApart (pairs.foldl (fun t e => Table.put t e.1 e.2) t) := by
  induction pairs generalizing t with
  | nil => exact h
  | cons e rest ih => exact ih (h.put e.1 e.2)

theorem keysApart_ofPairs (pairs : List (α × β)) : KeysApart (ofPairs pairs) :=
  KeysApart.foldl_put (t := []) List.Pairwise.nil pairs

theorem ofPairs_concat (pairs : List (α × β)) (e : α × β) :
    ofPairs (pairs ++ [e]) = put (ofPairs pairs) e.1 e.2 := List.foldl_append

/-- Writing a table that was written from pairs is writing the pairs. -/
theorem foldl_put_ofPairs [PartialEquivBEq α] (pairs : List (α × β)) (a : Table α β) :
    (ofPairs pairs).foldl (fun a e => put a e.1 e.2) a =
      pairs.foldl (fun a e => put a e.1 e.2) a := by
  induction pairs using List.reverseRecOn with
  | nil => rfl
  | append_singleton pairs e ih =>
    rw [ofPairs_concat, foldl_put_put (keysApart_ofPairs pairs), ih, List.foldl_append]
    rfl

theorem ofPairs_append [PartialEquivBEq α] (first second : List (α × β)) :
    ofPairs (first ++ second) =
      (ofPairs second).foldl (fun a e => put a e.1 e.2) (ofPairs first) := by
  rw [foldl_put_ofPairs, ofPairs, List.foldl_append]
  rfl

/-- The keys of a table that was written from pairs, in the order in which they first came. -/
theorem keys_ofPairs [PartialEquivBEq α] (pairs : List (α × β)) :
    keys (ofPairs pairs) = (keys pairs).eraseDups := by
  have hfold : ∀ t : Table α β, keys (pairs.foldl (fun t e => put t e.1 e.2) t) =
      List.eraseDupsBy.loop (fun a b => a == b) (keys pairs) (keys t).reverse := by
    induction pairs with
    | nil => exact fun t => (List.reverse_reverse _).symm
    | cons e rest ih =>
      intro t
      have hany : (keys t).reverse.any (fun k => e.1 == k) = has t e.1 := by
        simp only [keys, has, List.any_reverse, List.any_map, Function.comp_def]
        exact congrArg _ (funext fun d => BEq.comm)
      rw [List.foldl_cons, ih, keys_cons, List.eraseDupsBy.loop, hany]
      cases hk : has t e.1 with
      | true => simp [keys_put_of_has _ hk]
      | false => simp [put_of_not_has _ hk]
  exact hfold []

theorem KeysApart.mem_put [EquivBEq α] {t : Table α β} (apart : KeysApart t) {k : α} {v : β}
    {e : α × β} (h : e ∈ Table.put t k v) :
    (e.1 == k) = true ∧ e.2 = v ∨ (e.1 == k) = false ∧ e ∈ t := by
  induction t with
  | nil =>
    obtain rfl := List.mem_singleton.mp h
    exact Or.inl ⟨BEq.rfl, rfl⟩
  | cons d rest ih =>
    obtain ⟨hfirst, hrest⟩ := List.pairwise_cons.mp apart
    by_cases hk : (d.1 == k) = true
    · simp only [Table.put, hk, if_true, List.mem_cons] at h
      rcases h with rfl | h
      · exact Or.inl ⟨hk, rfl⟩
      · refine Or.inr ⟨Bool.eq_false_iff.mpr fun he => ?_, List.mem_cons_of_mem _ h⟩
        have hsame : (d.1 == e.1) = true := PartialEquivBEq.trans hk (PartialEquivBEq.symm he)
        exact Bool.eq_false_iff.mp (hfirst e.1 (mem_keys_of_mem h)) hsame
    · simp only [Table.put, hk, Bool.false_eq_true, if_false, List.mem_cons] at h
      rcases h with rfl | h
      · exact Or.inr ⟨Bool.not_eq_true _ ▸ hk, List.mem_cons_self⟩
      · exact (ih hrest h).imp_right fun h => ⟨h.1, List.mem_cons_of_mem _ h.2⟩

/-- Under each key of a table that was written from pairs is the value that came last. -/
theorem get?_reverse_of_mem_ofPairs [EquivBEq α] {pairs : List (α × β)} {e : α × β}
    (h : e ∈ ofPairs pairs) : get? pairs.reverse e.1 = some e.2 := by
  induction pairs using List.reverseRecOn with
  | nil => cases h
  | append_singleton pairs d ih =>
    rw [ofPairs_concat] at h
    rw [List.reverse_append, List.reverse_singleton, List.singleton_append, get?, List.find?_cons]
    rcases (keysApart_ofPairs pairs).mem_put h with ⟨hk, hv⟩ | ⟨hk, hmem⟩
    · rw [PartialEquivBEq.symm hk, hv]
      rfl
    · have hk' : (d.1 == e.1) = false := by rw [BEq.comm, hk]
      rw [hk']
      exact ih hmem

end

variable [BEq α] [LawfulBEq α]

theorem has_iff {t : Table α β} {k : α} : has t k = true ↔ k ∈ keys t := by
  simp [has, keys, List.any_eq_true]

theorem has_eq_false_iff {t : Table α β} {k : α} : has t k = false ↔ k ∉ keys t := by
  rw [← has_iff, Bool.not_eq_true]

theorem mem_of_get? {t : Table α β} {k : α} {v : β} (h : get? t k = some v) : (k, v) ∈ t := by
  obtain ⟨e, he, rfl⟩ := Option.map_eq_some_iff.mp h
  have hk : e.1 = k := by simpa using List.find?_some he
  subst hk
  exact List.mem_of_find?_eq_some he

theorem get?_eq_none_iff {t : Table α β} {k : α} : get? t k = none ↔ k ∉ keys t := by
  simp only [get?, Option.map_eq_none_iff, List.find?_eq_none, beq_iff_eq, keys, List.mem_map,
    not_exists, not_and]

theorem mem_keys_of_get? {t : Table α β} {k : α} {v : β} (h : get? t k = some v) : k ∈ keys t :=
  mem_keys_of_mem (mem_of_get? h)

theorem exists_get?_of_mem_keys {t : Table α β} {k : α} (h : k ∈ keys t) :
    ∃ v, get? t k = some v := by
  cases hv : get? t k with
  | none => exact absurd h (get?_eq_none_iff.mp hv)
  | some v => exact ⟨v, rfl⟩

theorem get?_of_mem {t : Table α β} {k : α} {v : β} (hn : (keys t).Nodup) (h : (k, v) ∈ t) :
    get? t k = some v := by
  induction t with
  | nil => simp at h
  | cons e rest ih =>
    simp only [keys_cons, List.nodup_cons] at hn
    rcases List.mem_cons.mp h with rfl | h
    · simp [get?]
    · have hne : e.1 ≠ k := fun he => hn.1 (he ▸ mem_keys_of_mem h)
      have hrest := ih hn.2 h
      simpa [get?, List.find?_cons, hne] using hrest

/-- The order of the entries does not matter when no key comes up twice. -/
theorem get?_perm {s t : Table α β} (hp : s.Perm t) (hn : (keys s).Nodup) (k : α) :
    get? s k = get? t k := by
  cases hs : get? s k with
  | none =>
    have hk : k ∉ keys t := fun hk => get?_eq_none_iff.mp hs ((hp.map Prod.fst).mem_iff.mpr hk)
    exact (get?_eq_none_iff.mpr hk).symm
  | some v =>
    have hnt : (keys t).Nodup := (hp.map Prod.fst).nodup_iff.mp hn
    exact (get?_of_mem hnt (hp.mem_iff.mp (mem_of_get? hs))).symm

theorem get?_put_self (t : Table α β) (k : α) (v : β) : get? (put t k v) k = some v := by
  induction t with
  | nil => simp [put, get?]
  | cons e rest ih =>
    by_cases hk : (e.1 == k) = true
    · simp [put, hk, get?]
    · simp only [put, hk, Bool.false_eq_true, if_false]
      simpa [get?, List.find?_cons, hk] using ih

theorem get?_put_ne (t : Table α β) {k l : α} (v : β) (hkl : l ≠ k) :
    get? (put t k v) l = get? t l := by
  induction t with
  | nil => simp [put, get?, Ne.symm hkl]
  | cons e rest ih =>
    by_cases hk : e.1 = k
    · simp [put, hk, get?, Ne.symm hkl]
    · by_cases hl : e.1 = l
      · simp [put, get?, hl, hkl]
      · simpa [put, hk, get?, List.find?_cons, hl] using ih

theorem mem_keys_put {t : Table α β} {k l : α} {v : β} :
    l ∈ keys (put t k v) ↔ l = k ∨ l ∈ keys t := by
  by_cases hk : has t k = true
  · rw [keys_put_of_has v hk]
    constructor
    · exact Or.inr
    · rintro (rfl | h)
      · exact has_iff.mp hk
      · exact h
  · rw [put_of_not_has v (Bool.not_eq_true _ ▸ hk)]
    simp [or_comm]

theorem mem_put {t : Table α β} {k : α} {v : β} {e : α × β} (h : e ∈ put t k v) :
    e ∈ t ∨ e = (k, v) := by
  induction t with
  | nil => exact Or.inr (by simpa [put] using h)
  | cons d rest ih =>
    by_cases hk : d.1 = k
    · subst hk
      simp only [put, beq_self_eq_true, if_true, List.mem_cons] at h
      rcases h with h | h
      · exact Or.inr h
      · exact Or.inl (List.mem_cons_of_mem _ h)
    · have hb : (d.1 == k) = false := by simpa using hk
      simp only [put, hb, Bool.false_eq_true, if_false, List.mem_cons] at h
      rcases h with rfl | h
      · exact Or.inl List.mem_cons_self
      · exact (ih h).imp (List.mem_cons_of_mem _) id

theorem nodup_keys_put {t : Table α β} (hn : (keys t).Nodup) (k : α) (v : β) :
    (keys (put t k v)).Nodup := by
  by_cases hk : has t k = true
  · rwa [keys_put_of_has v hk]
  · have hf : has t k = false := Bool.not_eq_true _ ▸ hk
    rw [put_of_not_has v hf, keys_append]
    have hnot := has_eq_false_iff.mp hf
    exact List.Nodup.append hn (by simp) (by simpa using hnot)

end ApiContract.Table
