import Mathlib.Data.List.Nodup
import Mathlib.Data.List.Perm.Subperm
import ApiContract.Naming.Identifier

/-! # Fresh names are fresh

The numbered forms of a name are all different, so among one more of them than there
are taken names one is free, and the name that is given out is never a taken one.
-/
namespace ApiContract.Naming

theorem toString_injective {m n : Nat} (h : toString m = toString n) : m = n := by
  have hd : Nat.toDigits 10 m = Nat.toDigits 10 n := by
    have hl := congrArg String.toList h
    simpa [Nat.toString_eq_ofList_toDigits] using hl
  have hv := congrArg (fun ds => Nat.ofDigitChars 10 ds 0) hd
  simpa only [Nat.ofDigitChars_ten_toDigits] using hv

theorem numbered_injective {base joint : String} {m n : Nat}
    (h : numbered base joint m = numbered base joint n) : m = n :=
  toString_injective ((String.append_right_inj _).mp h)

def candidates (base joint : String) (count : Nat) : List String :=
  (List.range count).map fun i => numbered base joint (i + 2)

theorem nodup_candidates (base joint : String) (count : Nat) :
    (candidates base joint count).Nodup := by
  apply List.Nodup.map ?_ List.nodup_range
  intro i j h
  exact Nat.add_right_cancel (numbered_injective h)

/-- One more candidate than there are taken names leaves one that is free. -/
theorem exists_free_candidate (taken : List String) (base joint : String) :
    ∃ c ∈ candidates base joint (taken.length + 1), c ∉ taken := by
  by_contra hall
  have hsub : candidates base joint (taken.length + 1) ⊆ taken := by
    intro c hc
    by_contra hn
    exact hall ⟨c, hc, hn⟩
  have hlen := ((nodup_candidates base joint (taken.length + 1)).subperm hsub).length_le
  simp only [candidates, List.length_map, List.length_range] at hlen
  omega

theorem fresh_notMem (taken : List String) (base joint : String) :
    fresh taken base joint ∉ taken := by
  unfold fresh
  split
  · obtain ⟨c, hc, hfree⟩ := exists_free_candidate taken base joint
    cases hf : (candidates base joint (taken.length + 1)).find? fun c => c ∉ taken with
    | none => exact absurd hfree (by simpa using List.find?_eq_none.mp hf c hc)
    | some name =>
      have hname : name ∉ taken := by simpa using List.find?_some hf
      rw [candidates] at hf
      rwa [hf]
  · assumption

end ApiContract.Naming
