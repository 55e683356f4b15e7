import ApiContract.Proofs.Endpoint.Names
import ApiContract.Proofs.Endpoint.Order

/-! # Classes of operations

Every operation of a contract belongs to the resource that its hint, its tag or its path
names. The operations of one name are a class, in document order, and the classes come in
the order of their first operations. Each class becomes one resource, which is returned or
dropped for a clash, and what becomes of one class does not touch the others.
-/
namespace ApiContract.Grouping

variable {contract : Contract} {settings : Settings} {ops : List Operation}

/-- The name of the resource that an operation belongs to. -/
def ownerName (settings : Settings) (op : Operation) : Outcome String := do
  let k ← key settings op
  resourceName k

def belongs (settings : Settings) (name : String) (op : Operation) : Bool :=
  (ownerName settings op).toOption == some name

/-- The operations that belong to a resource, in their order. -/
def classOf (settings : Settings) (ops : List Operation) (name : String) : List Operation :=
  ops.filter (belongs settings name)

/-- The names of the resources in the order in which the operations come to them. -/
def encounters (settings : Settings) (ops : List Operation) : List String :=
  ops.filterMap fun op => (ownerName settings op).toOption

/-- What becomes of a class: a resource that is returned, or one that is dropped. -/
inductive Fate
  | returned (resource : Resource)
  | dropped (drop : Dropped)

namespace Fate

def resource : Fate → Resource
  | returned resource => resource
  | dropped drop => drop.resource

def returned? : Fate → Option Resource
  | returned resource => some resource
  | dropped _ => none

def dropped? : Fate → Option Dropped
  | returned _ => none
  | dropped drop => some drop

/-- A resource that is dropped has methods that cannot be told apart. -/
def IsClash : Fate → Prop
  | returned _ => True
  | dropped d => distinguish d.resource = .error (.naming d.clash d.location)

end Fate

/-- The fate of the class of a name: its resource has the name and the operations of the
class, and it is dropped only over a clash of method names. -/
structure IsFateOf (settings : Settings) (ops : List Operation) (n : String) (fate : Fate) :
    Prop where
  name : fate.resource.name = n
  operations : fate.resource.operations = classOf settings ops n
  clash : fate.IsClash

theorem belongs_iff {name : String} {op : Operation} :
    belongs settings name op = true ↔ ownerName settings op = .ok name := by
  unfold belongs
  cases ownerName settings op <;> simp [Except.toOption]

theorem encounters_append_of_ok (ops : List Operation) {name : String} {op : Operation}
    (h : ownerName settings op = .ok name) :
    encounters settings (ops ++ [op]) = encounters settings ops ++ [name] := by
  simp [encounters, h, Except.toOption]

theorem mem_encounters {name : String} :
    name ∈ encounters settings ops ↔ ∃ op ∈ ops, ownerName settings op = .ok name := by
  have hname : ∀ op, (ownerName settings op).toOption = some name ↔
      ownerName settings op = .ok name := by
    intro op
    cases ownerName settings op <;> simp [Except.toOption]
  simp [encounters, hname]

theorem classOf_eq_nil {name : String} (h : name ∉ encounters settings ops) :
    classOf settings ops name = [] := by
  rw [classOf, List.filter_eq_nil_iff]
  intro op hop hb
  exact h (mem_encounters.mpr ⟨op, hop, belongs_iff.mp hb⟩)

theorem eraseDups_concat {α : Type} [BEq α] [LawfulBEq α] (l : List α) (x : α) [Decidable (x ∈ l)] :
    (l ++ [x]).eraseDups = if x ∈ l then l.eraseDups else l.eraseDups ++ [x] := by
  have hremoved : [x].removeAll l = if x ∈ l then [] else [x] := by
    by_cases hx : x ∈ l <;> simp [List.removeAll, hx]
  rw [List.eraseDups_append, hremoved]
  split <;> simp [List.eraseDups_cons]

theorem nodup_eraseDups (l : List String) : l.eraseDups.Nodup :=
  (Signature.pairwise_eraseDups l).imp fun {a b} hab he => by simp [he] at hab

/-- Groups that hold the classes of some operations, in the order of the first operations. -/
structure Holds (settings : Settings) (ops : List Operation) (groups : Table String Group) :
    Prop where
  named : ∀ op ∈ ops, ∃ name, ownerName settings op = .ok name
  keys : Table.keys groups = (encounters settings ops).eraseDups
  classes : ∀ e ∈ groups, e.2.operations = classOf settings ops e.1

theorem addOperation_eq_ok {groups groups' : Table String Group} {op : Operation}
    (h : addOperation settings groups op = .ok groups') :
    ∃ name start, ownerName settings op = .ok name ∧ start.operations = [] ∧
      groups' = Table.put groups name
        { (Table.get? groups name).getD start with
          operations := ((Table.get? groups name).getD start).operations ++ [op] } := by
  obtain ⟨k, hk, h⟩ := Outcome.bind_eq_ok.mp h
  obtain ⟨name, hname, h⟩ := Outcome.bind_eq_ok.mp h
  cases h
  exact ⟨name, { key := k, operations := [] }, Outcome.bind_eq_ok.mpr ⟨k, hk, hname⟩, rfl, rfl⟩

theorem Holds.group {groups : Table String Group} (h : Holds settings ops groups) (name : String)
    {start : Group} (hs : start.operations = []) :
    ((Table.get? groups name).getD start).operations = classOf settings ops name := by
  cases hg : Table.get? groups name with
  | some group => exact h.classes (name, group) (Table.mem_of_get? hg)
  | none =>
    have hnew : name ∉ encounters settings ops := by
      intro hn
      apply Table.get?_eq_none_iff.mp hg
      rwa [h.keys, List.mem_eraseDups]
    rw [classOf_eq_nil hnew]
    exact hs

theorem Holds.add {groups groups' : Table String Group} {op : Operation}
    (h : Holds settings ops groups) (hadd : addOperation settings groups op = .ok groups') :
    Holds settings (ops ++ [op]) groups' := by
  obtain ⟨name, start, hname, hstart, rfl⟩ := addOperation_eq_ok hadd
  have hencounters := encounters_append_of_ok ops hname
  have hmem : name ∈ Table.keys groups ↔ name ∈ encounters settings ops := by
    rw [h.keys, List.mem_eraseDups]
  refine ⟨?_, ?_, ?_⟩
  · intro o ho
    rcases List.mem_append.mp ho with ho | ho
    · exact h.named o ho
    · exact ⟨name, List.mem_singleton.mp ho ▸ hname⟩
  · rw [hencounters, eraseDups_concat]
    by_cases hn : name ∈ encounters settings ops
    · rw [if_pos hn, Table.keys_put_of_has _ (Table.has_iff.mpr (hmem.mpr hn)), h.keys]
    · have hnew := Table.has_eq_false_iff.mpr fun hk => hn (hmem.mp hk)
      rw [if_neg hn, Table.put_of_not_has _ hnew, Table.keys_append, h.keys]
      rfl
  · intro e he
    have hnodup : (Table.keys groups).Nodup := h.keys ▸ nodup_eraseDups _
    have hsplit : classOf settings (ops ++ [op]) e.1 =
        classOf settings ops e.1 ++ if belongs settings e.1 op then [op] else [] := by
      rw [classOf, classOf, List.filter_append, List.filter_singleton, Bool.cond_eq_ite]
    by_cases hk : e.1 = name
    · have hv := Table.get?_of_mem (Table.nodup_keys_put hnodup name _) he
      rw [hk, Table.get?_put_self] at hv
      rw [hsplit, hk, if_pos (belongs_iff.mpr hname), ← h.group name hstart, ← Option.some.inj hv]
    · have hold : e ∈ groups := (Table.mem_put he).resolve_right fun hnew => hk (hnew ▸ rfl)
      have hother : ¬belongs settings e.1 op = true := by
        rw [belongs_iff, hname]
        exact fun he => hk (Except.ok.inj he).symm
      rw [hsplit, if_neg hother, List.append_nil]
      exact h.classes e hold

theorem holds_of_addOperations {rest : List Operation} {groups groups' : Table String Group}
    (h : Holds settings ops groups)
    (hadd : rest.foldlM (addOperation settings) groups = .ok groups') :
    Holds settings (ops ++ rest) groups' := by
  induction rest generalizing ops groups with
  | nil =>
    cases hadd
    rwa [List.append_nil]
  | cons op rest ih =>
    rw [List.foldlM_cons] at hadd
    obtain ⟨next, hnext, hadd⟩ := Outcome.bind_eq_ok.mp hadd
    simpa using ih (h.add hnext) hadd

theorem holds_groupsOf {groups : Table String Group}
    (h : groupsOf contract settings = .ok groups) :
    Holds settings contract.operations groups := by
  have hnone : Holds settings [] [] :=
    { named := by simp, keys := by simp [encounters], classes := by simp }
  simpa using holds_of_addOperations hnone h

/-- The fates of the groups, in their order: the resources that are returned are some of
them and those that are dropped are the others. -/
theorem ToldApart.exists_fates {groups : Table String Group} {resources : List Resource}
    {dropped : List Dropped} (h : ToldApart settings groups resources dropped) :
    ∃ fates : List Fate,
      List.Forall₂ (fun e fate => fate.resource.name = e.1 ∧
        fate.resource.operations = e.2.operations ∧ fate.IsClash) groups fates ∧
      resources = fates.filterMap Fate.returned? ∧ dropped = fates.filterMap Fate.dropped? := by
  induction h with
  | done => exact ⟨[], .nil, rfl, rfl⟩
  | @kept entry rest resource named resources dropped made apart _ ih =>
    obtain ⟨fates, hall, rfl, rfl⟩ := ih
    refine ⟨.returned named :: fates, .cons ⟨?_, ?_, trivial⟩ hall, rfl, rfl⟩
    · exact (name_of_distinguish apart).trans (name_of_resourceOf made)
    · exact (distinguish_eq_ok apart).trans (resourceOf_eq_ok made)
  | @dropped entry rest resource clash location resources dropped made clashes _ ih =>
    obtain ⟨fates, hall, rfl, rfl⟩ := ih
    exact ⟨.dropped ⟨resource, clash, location⟩ :: fates,
      .cons ⟨name_of_resourceOf made, resourceOf_eq_ok made, clashes⟩ hall, rfl, rfl⟩

/-- Each class has its fate, in the order of the first operations of the classes. -/
theorem exists_fates_of_group {grouped : Grouped} {w w' : Workspace}
    (h : group contract settings w = .ok grouped w') :
    ∃ fates : List Fate,
      List.Forall₂ (IsFateOf settings contract.operations)
        (encounters settings contract.operations).eraseDups fates ∧
      grouped.resources = fates.filterMap Fate.returned? ∧
      grouped.diagnostics = (fates.filterMap Fate.dropped?).map Dropped.diagnostic := by
  obtain ⟨groups, dropped, hgroups, htold, hdiagnostics⟩ := group_eq_ok h
  obtain ⟨fates, hall, hresources, hdropped⟩ := htold.exists_fates
  have hholds := holds_groupsOf hgroups
  refine ⟨fates, ?_, hresources, hdropped ▸ hdiagnostics⟩
  rw [← hholds.keys, Table.keys, List.forall₂_map_left_iff]
  refine ((List.forall₂_and_left _ _).mpr ⟨hholds.classes, hall⟩).imp ?_
  rintro e fate ⟨hclass, hname, hoperations, hclash⟩
  exact ⟨hname, hoperations.trans hclass, hclash⟩

/-- The resources that are returned come in the order of their classes. -/
theorem names_returned {names : List String} {fates : List Fate}
    (h : List.Forall₂ (IsFateOf settings ops) names fates) :
    ((fates.filterMap Fate.returned?).map Resource.name).Sublist names := by
  induction h with
  | nil => exact .slnil
  | @cons name fate names fates hfate _ ih =>
    cases fate with
    | returned resource =>
      have hname : resource.name = name := hfate.name
      simp only [List.filterMap_cons, Fate.returned?, List.map_cons, hname]
      exact ih.cons_cons name
    | dropped d =>
      simp only [List.filterMap_cons, Fate.returned?]
      exact ih.cons name

/-- What is left of the classes of a contract. -/
structure Classified (contract : Contract) (settings : Settings) (grouped : Grouped)
    (fates : List Fate) : Prop where
  owned : ∀ op ∈ contract.operations, ∃ name, ownerName settings op = .ok name
  partition : ((encounters settings contract.operations).eraseDups.flatMap
    (classOf settings contract.operations)).Perm contract.operations
  each : List.Forall₂ (IsFateOf settings contract.operations)
    (encounters settings contract.operations).eraseDups fates
  returned : grouped.resources = fates.filterMap Fate.returned?
  diagnostics : grouped.diagnostics = (fates.filterMap Fate.dropped?).map Dropped.diagnostic
  kinds : ∀ d ∈ grouped.diagnostics, d.kind = "AmbiguousOperationName"
  order : (grouped.resources.map Resource.name).Pairwise fun a b =>
    (encounters settings contract.operations).idxOf a <
      (encounters settings contract.operations).idxOf b
  apart : (grouped.resources.map Resource.name).Nodup

/-- The operations of a contract fall into classes by the names of their resources. Each
class, in document order, is what one resource holds, which is returned or else dropped with
one diagnostic; the resources that are returned have names of their own and come in the
order in which the operations come to their classes. -/
theorem classes_of_group {grouped : Grouped} {w w' : Workspace}
    (h : group contract settings w = .ok grouped w') :
    ∃ fates, Classified contract settings grouped fates := by
  obtain ⟨groups, -, hgroups, -⟩ := group_eq_ok h
  have hholds := holds_groupsOf hgroups
  obtain ⟨fates, hfates, hreturned, hdiagnostics⟩ := exists_fates_of_group h
  have hsublist := names_returned hfates
  refine ⟨fates, ?_⟩
  exact
    { owned := hholds.named
      partition := by
        have hflat : (encounters settings contract.operations).eraseDups.flatMap
            (classOf settings contract.operations) = operationsOf groups := by
          rw [← hholds.keys, Table.keys, List.flatMap_map, operationsOf]
          exact List.flatMap_congr fun e he => (hholds.classes e he).symm
        rw [hflat]
        exact perm_groupsOf hgroups
      each := hfates
      returned := hreturned
      diagnostics := hdiagnostics
      kinds := by
        intro d hd
        rw [hdiagnostics] at hd
        obtain ⟨drop, -, rfl⟩ := List.mem_map.mp hd
        rfl
      order := hreturned ▸ (Signature.pairwise_eraseDups _).sublist hsublist
      apart := hreturned ▸ (nodup_eraseDups _).sublist hsublist }

/-- Operations that come to shops by path, by tag and by hint, between two on carts, which
give themselves one name, and one on pets. -/
def marketContract : Contract :=
  { title := "Market", version := "1",
    items := [
      { template := "/shops", operations := [{ method := "get", path := "/shops" }] },
      { template := "/carts", operations := [
        { method := "put", path := "/carts", operationId := .text "fill" },
        { method := "post", path := "/carts", operationId := .text "fill" }] },
      { template := "/pets", operations := [{ method := "get", path := "/pets" }] },
      { template := "/owners", operations := [
        { method := "get", path := "/owners", tags := [.text "Shops", .text "pets"] }] },
      { template := "/stock", operations := [
        { method := "get", path := "/stock", tags := [.text "pets"],
          extensions := [("x-codegen-resource", .text "shops")] }] }] }

/-- The labels of the operations of each resource, under its name. -/
def labelled (resources : List Resource) : List (String × List String) :=
  resources.map fun r => (r.name, r.operations.map Operation.label)

theorem classes_of_group_market :
    ∃ grouped w fates, group marketContract { groupByTags := true } {} = .ok grouped w ∧
      Classified marketContract { groupByTags := true } grouped fates ∧
      labelled grouped.resources =
        [("ShopsResource", ["GET /shops", "GET /owners", "GET /stock"]),
          ("PetsResource", ["GET /pets"])] ∧
      grouped.diagnostics.map Diagnostic.location = ["POST /carts"] ∧
      (encounters { groupByTags := true } marketContract.operations).eraseDups =
        ["ShopsResource", "CartsResource", "PetsResource"] := by
  obtain ⟨grouped, w, run, hview⟩ := Step.exists_of_outcome
    (r := group marketContract { groupByTags := true } {})
    (f := fun grouped => (labelled grouped.resources, grouped.diagnostics.map Diagnostic.location))
    (b := ([("ShopsResource", ["GET /shops", "GET /owners", "GET /stock"]),
      ("PetsResource", ["GET /pets"])], ["POST /carts"])) (by decide +kernel)
  obtain ⟨hlabels, hlocations⟩ := Prod.mk.inj hview
  obtain ⟨fates, hclassified⟩ := classes_of_group run
  exact ⟨grouped, w, fates, run, hclassified, hlabels, hlocations, by decide +kernel⟩

end ApiContract.Grouping
