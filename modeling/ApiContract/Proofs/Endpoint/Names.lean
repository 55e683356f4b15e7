import ApiContract.Proofs.Endpoint.Attempts
import ApiContract.Proofs.Endpoint.Groups
import ApiContract.Proofs.Naming.Legal

/-! # Names of resources

The groups stand under the names of the resources, each a word and each there once. Telling
methods apart and signing drop resources and never rename one.
-/
namespace ApiContract

variable {contract : Contract} {settings : Settings}

namespace Grouping

theorem resourceName_eq_ok {key : Tree} {name : String} (h : resourceName key = .ok name) :
    ∃ text, name = Naming.resourceName text := by
  unfold resourceName at h
  split at h
  · obtain ⟨text, -, rfl⟩ := Outcome.map_eq_ok.mp h
    exact ⟨text, rfl⟩
  · cases h
    exact ⟨"", rfl⟩

/-- Names that are words and of which none comes up twice. -/
structure Distinct (names : List String) : Prop where
  apart : names.Nodup
  words : ∀ n ∈ names, Naming.IsWord n.toList

theorem Distinct.sublist {names names' : List String} (h : Distinct names)
    (hs : names'.Sublist names) : Distinct names' where
  apart := h.apart.sublist hs
  words := fun n hn => h.words n (hs.subset hn)

theorem distinct_groupsOf {groups : Table String Group}
    (h : groupsOf contract settings = .ok groups) : Distinct (Table.keys groups) := by
  have hnone : Distinct (Table.keys ([] : Table String Group)) := ⟨List.nodup_nil, by simp⟩
  refine Outcome.foldlM_keeps (P := fun groups => Distinct (Table.keys groups)) ?_ hnone h
  intro groups hgroups op _ groups' h
  obtain ⟨k, -, h⟩ := Outcome.bind_eq_ok.mp h
  obtain ⟨name, hname, h⟩ := Outcome.bind_eq_ok.mp h
  obtain ⟨text, rfl⟩ := resourceName_eq_ok hname
  cases h
  refine ⟨Table.nodup_keys_put hgroups.apart _ _, fun n hn => ?_⟩
  rcases Table.mem_keys_put.mp hn with rfl | hn
  · exact Naming.isWord_resourceName text
  · exact hgroups.words n hn

theorem suffix_groupsOf {groups : Table String Group}
    (h : groupsOf contract settings = .ok groups) :
    ∀ n ∈ Table.keys groups, "Resource".toList <:+ n.toList := by
  have hnone : ∀ n ∈ Table.keys ([] : Table String Group), "Resource".toList <:+ n.toList := by simp
  refine Outcome.foldlM_keeps (P := fun groups => ∀ n ∈ Table.keys groups,
    "Resource".toList <:+ n.toList) ?_ hnone h
  intro groups hgroups op _ groups' h
  obtain ⟨k, -, h⟩ := Outcome.bind_eq_ok.mp h
  obtain ⟨name, hname, h⟩ := Outcome.bind_eq_ok.mp h
  obtain ⟨text, rfl⟩ := resourceName_eq_ok hname
  cases h
  intro n hn
  rcases Table.mem_keys_put.mp hn with rfl | hn
  · rw [Naming.resourceName, String.toList_append]
    exact List.suffix_append _ _
  · exact hgroups n hn

theorem name_of_resourceOf {name : String} {group : Group} {resource : Resource}
    (h : resourceOf settings name group = .ok resource) : resource.name = name := by
  obtain ⟨endpoints, -, h⟩ := Outcome.bind_eq_ok.mp h
  cases h
  rfl

theorem name_of_distinguish {resource named : Resource} (h : distinguish resource = .ok named) :
    named.name = resource.name := by
  obtain ⟨final, -, h⟩ := Outcome.bind_eq_ok.mp h
  cases h
  rfl

theorem ToldApart.names {groups : Table String Group} {resources : List Resource}
    {dropped : List Dropped} (h : ToldApart settings groups resources dropped) :
    (resources.map Resource.name).Sublist (Table.keys groups) := by
  induction h with
  | done => exact .slnil
  | kept made apart _ ih =>
    rw [List.map_cons, name_of_distinguish apart, name_of_resourceOf made]
    exact ih.cons_cons _
  | dropped _ _ _ ih => exact ih.cons _

end Grouping

namespace Signature

open Grouping

theorem names_remaining (resource : Resource) (kept : List Endpoint) :
    ((remaining resource kept).map Resource.name).Sublist [resource.name] := by
  unfold remaining
  split
  · exact List.nil_sublist _
  · exact .refl _

theorem names_signResources {resources : List Resource} {state state' : Grouped}
    {w w' : Workspace}
    (h : resources.foldlM (signResource contract settings) state w = .ok state' w') :
    (state'.resources.map Resource.name).Sublist
      (state.resources.map Resource.name ++ resources.map Resource.name) := by
  induction resources generalizing state w with
  | nil =>
    cases h
    simp
  | cons resource rest ih =>
    rw [List.foldlM_cons] at h
    obtain ⟨next, v, hnext, h⟩ := Step.bind_eq_ok.mp h
    obtain ⟨kept, refused, -, hresources, -⟩ := signResource_eq_ok hnext
    refine (ih h).trans ?_
    rw [hresources, List.map_append, List.append_assoc]
    exact ((names_remaining resource kept).append (.refl _)).append_left _

/-- The resources of a run have names of groups, in their order. -/
theorem exists_groups_of_resolveResources {final : Grouped} {w w' : Workspace}
    (h : resolveResources contract settings w = .ok final w') :
    ∃ groups, groupsOf contract settings = .ok groups ∧
      (final.resources.map Resource.name).Sublist (Table.keys groups) := by
  obtain ⟨grouped, v, hgrouped, h⟩ := Step.bind_eq_ok.mp h
  obtain ⟨groups, dropped, hgroups, htold, -⟩ := group_eq_ok hgrouped
  exact ⟨groups, hgroups, (names_signResources h).trans htold.names⟩

/-- The resources of a run have names that are words, each of them its own. -/
theorem distinct_resolveResources {final : Grouped} {w w' : Workspace}
    (h : resolveResources contract settings w = .ok final w') :
    Distinct (final.resources.map Resource.name) := by
  obtain ⟨groups, hgroups, hnames⟩ := exists_groups_of_resolveResources h
  exact (distinct_groupsOf hgroups).sublist hnames

/-- The name of a resource ends like that of every other. -/
theorem suffix_resolveResources {final : Grouped} {w w' : Workspace}
    (h : resolveResources contract settings w = .ok final w') :
    ∀ r ∈ final.resources, "Resource".toList <:+ r.name.toList := by
  obtain ⟨groups, hgroups, hnames⟩ := exists_groups_of_resolveResources h
  exact fun r hr => suffix_groupsOf hgroups _ (hnames.subset (List.mem_map_of_mem hr))

end Signature

end ApiContract
