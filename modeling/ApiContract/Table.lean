/-! # Ordered tables

A table is a list of entries in the order in which their keys first came. Writing
under a known key keeps its place; writing under a new key appends.
-/
namespace ApiContract

abbrev Table (α β : Type) := List (α × β)

namespace Table

variable {α β : Type} [BEq α]

def get? (t : Table α β) (k : α) : Option β := (t.find? fun e => e.1 == k).map (·.2)

def has (t : Table α β) (k : α) : Bool := t.any fun e => e.1 == k

def put : Table α β → α → β → Table α β
  | [], k, v => [(k, v)]
  | e :: rest, k, v => if e.1 == k then (e.1, v) :: rest else e :: put rest k v

def ofPairs (pairs : List (α × β)) : Table α β := pairs.foldl (fun t e => put t e.1 e.2) []

omit [BEq α] in
def keys (t : Table α β) : List α := t.map (·.1)

omit [BEq α] in
def values (t : Table α β) : List β := t.map (·.2)

theorem put_of_not_has {t : Table α β} {k : α} (v : β) (h : has t k = false) :
    put t k v = t ++ [(k, v)] := by
  induction t with
  | nil => rfl
  | cons e rest ih =>
    simp only [has, List.any_cons, Bool.or_eq_false_iff] at h
    simp [put, h.1, ih h.2]

theorem keys_put_of_has {t : Table α β} {k : α} (v : β) (h : has t k = true) :
    keys (put t k v) = keys t := by
  induction t with
  | nil => simp [has] at h
  | cons e rest ih =>
    simp only [has, List.any_cons, Bool.or_eq_true] at h
    by_cases hk : (e.1 == k) = true
    · simp [put, hk, keys]
    · simp only [put, hk, keys, List.map_cons]
      simp only [Bool.not_eq_true] at hk
      simp only [hk, Bool.false_eq_true, false_or, if_false, List.map_cons] at h ⊢
      exact congrArg _ (ih h)

end Table

end ApiContract
