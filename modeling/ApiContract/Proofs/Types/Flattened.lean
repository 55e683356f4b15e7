import ApiContract.Proofs.Contract.Parameters
import ApiContract.Proofs.Types.Inversion
import ApiContract.Proofs.Types.Lookups

/-! # Merged objects are flattened ones

Merging an object ends, also where components refer to each other in circles: a member is a
part of its object, or it enters a component that was not entered on the way to it. What is
merged is the row of all objects that the members lead to, each after its own members: its
properties are written in the order of that row, so that a property stands where it came
first and has the schema that came last.
-/
namespace ApiContract

/-- Whether a failure is neither a fault of a schema nor a lookup that misses. -/
def Failure.isStray : Failure → Bool
  | schema .. => false
  | missing => false
  | _ => true

variable {contract : Contract}

theorem Schema.length_nodes_of_mem_parts {s p : Schema} (h : p ∈ s.parts) :
    p.nodes.length < s.nodes.length := by
  have hle := (nodes_sublist_of_mem_parts h).length_le
  rw [nodes_eq s, List.length_cons]
  omega

theorem Schema.mem_parts_of_mem_members {s m : Schema} (h : m ∈ s.members) : m ∈ s.parts := by
  cases s with
  | object => exact List.mem_append_right _ h
  | _ => cases h

namespace Contract

/-- How many components are not among those entered. -/
def unseen (contract : Contract) (seen : List String) : ℕ :=
  contract.schemas.countP fun c => c.1 ∉ seen

theorem unseen_nil : contract.unseen [] = contract.schemas.length := by
  simp [unseen]

theorem countP_notMem_anti {seen seen' : List String} (h : seen ⊆ seen')
    (schemas : Table String Schema) :
    (schemas.countP fun c => c.1 ∉ seen') ≤ schemas.countP fun c => c.1 ∉ seen :=
  List.countP_mono_left fun c _ hc => by
    simp only [decide_eq_true_eq] at hc ⊢
    exact fun hmem => hc (h hmem)

theorem unseen_anti {seen seen' : List String} (h : seen ⊆ seen') :
    contract.unseen seen' ≤ contract.unseen seen :=
  countP_notMem_anti h contract.schemas

theorem unseen_cons_lt {seen : List String} {name : String} {s : Schema}
    (component : contract.schema? name = some s) (fresh : name ∉ seen) :
    contract.unseen (name :: seen) < contract.unseen seen := by
  obtain ⟨before, after, hsplit⟩ := List.append_of_mem (Table.mem_of_get? component)
  have hseen : seen ⊆ name :: seen := List.subset_cons_self _ _
  have hbefore := countP_notMem_anti hseen before
  have hafter := countP_notMem_anti hseen after
  rw [unseen, unseen, hsplit]
  simp only [List.countP_append, List.countP_cons, List.mem_cons, true_or, not_true_eq_false,
    decide_false, fresh, not_false_eq_true, decide_true] at hbefore hafter ⊢
  simp only [Bool.false_eq_true, if_false, if_true]
  omega

theorem targetWithin_ends {fuel : ℕ} {seen : List String} (enough : contract.unseen seen < fuel)
    (s : Schema) : (contract.targetWithin fuel seen s).Avoids Failure.isStray := by
  induction fuel generalizing seen s with
  | zero => omega
  | succ fuel ih =>
    unfold targetWithin
    split
    · split
      · exact .ok _
      · split
        · exact .error rfl
        · next hfresh =>
          intro e he
          rcases Outcome.bind_eq_error.mp he with he | ⟨next, hnext, he⟩
          · exact Outcome.Avoids.need rfl _ e he
          · have hlt := unseen_cons_lt (Outcome.need_eq_ok.mp hnext) hfresh
            exact ih (by omega) next e he
    · exact .ok _

theorem target_ends (s : Schema) : (contract.target s).Avoids Failure.isStray :=
  targetWithin_ends (by rw [unseen_nil]; omega) s

/-- A schema that is no reference is its own target. -/
theorem target_eq_self {s : Schema} (h : ∀ location name, s ≠ .reference location name) :
    contract.target s = .ok s := by
  cases s with
  | reference location name => exact absurd rfl (h location name)
  | _ => rfl

/-- A reference leads to a component, or it names none and is its own target. -/
theorem targetWithin_reference {fuel : ℕ} {seen : List String} {location name : String} {t : Schema}
    (h : contract.targetWithin fuel seen (.reference location name) = .ok t) :
    t = .reference location name ∨
      (∃ s, contract.schema? name = some s) ∧ t ∈ Table.values contract.schemas := by
  induction fuel generalizing seen location name with
  | zero => cases h
  | succ fuel ih =>
    simp only [targetWithin] at h
    split at h
    · exact Or.inl (Except.ok.inj h).symm
    · split at h
      · cases h
      · obtain ⟨next, hnext, h⟩ := Outcome.bind_eq_ok.mp h
        have hcomponent := Outcome.need_eq_ok.mp hnext
        have hmem : next ∈ Table.values contract.schemas :=
          Table.mem_values.mpr ⟨_, Table.mem_of_get? hcomponent, rfl⟩
        refine Or.inr ⟨⟨next, hcomponent⟩, ?_⟩
        cases next with
        | reference location' name' =>
          rcases ih h with rfl | ⟨-, ht⟩
          · exact hmem
          · exact ht
        | _ =>
          cases fuel with
          | zero => cases h
          | succ fuel =>
            cases h
            exact hmem

theorem length_nodes_le_nodeCount {s : Schema} (h : s ∈ Table.values contract.schemas) :
    s.nodes.length ≤ contract.nodeCount := by
  obtain ⟨c, hc, rfl⟩ := Table.mem_values.mp h
  obtain ⟨before, after, hsplit⟩ := List.append_of_mem hc
  rw [nodeCount, ← List.sum_eq_foldl_nat, hsplit, List.map_append, List.map_cons,
    List.sum_append_nat, List.sum_cons]
  omega

end Contract

namespace Schema

/-- The component that a member names. -/
def entered : Schema → List String
  | reference _ name => [name]
  | _ => []

def required : Schema → List Scalar
  | object _ _ required _ => required
  | _ => []

end Schema

namespace Merged

variable {merge : List String → Schema → Outcome Merged}

theorem enter_eq_ok {seen seen' : List String} {m t : Schema}
    (h : enter contract seen m = .ok (t, seen')) :
    contract.target m = .ok t ∧ (∀ name ∈ m.entered, name ∉ seen) ∧ seen' = m.entered ++ seen := by
  cases m with
  | reference location name =>
    simp only [enter] at h
    split at h
    · cases h
    · next hfresh =>
      obtain ⟨t, ht, h⟩ := Outcome.bind_eq_ok.mp h
      cases h
      exact ⟨ht, by simpa [Schema.entered] using hfresh, rfl⟩
  | _ =>
    cases h
    exact ⟨rfl, by simp [Schema.entered], rfl⟩

theorem enter_eq_error {seen : List String} {m : Schema} {e : Failure}
    (h : enter contract seen m = .error e) :
    (∃ name ∈ m.entered, name ∈ seen ∧ e = .schema (.allOfCycle name) m.location) ∨
      contract.target m = .error e := by
  cases m with
  | reference location name =>
    simp only [enter] at h
    split at h
    · next hseen =>
      cases h
      exact Or.inl ⟨name, List.mem_singleton_self name, hseen, rfl⟩
    · rcases Outcome.bind_eq_error.mp h with h | ⟨t, -, h⟩
      · exact Or.inr h
      · cases h
  | _ => cases h

/-- A member that is added names no component that was entered, and the object that it leads
to is merged with the component entered. -/
structure Adds (contract : Contract) (merge : List String → Schema → Outcome Merged) (state : State)
    (m t : Schema) : Prop where
  target : contract.target m = .ok t
  object : t.isObject = true
  fresh : ∀ name ∈ m.entered, name ∉ state.seen

theorem addMember_eq_ok {state final : State} {m : Schema}
    (h : addMember contract merge state m = .ok final) :
    ∃ t part, Adds contract merge state m t ∧ merge (m.entered ++ state.seen) t = .ok part ∧
      final = { merged := state.merged.append part, seen := m.entered ++ state.seen } := by
  obtain ⟨⟨t, seen⟩, henter, h⟩ := Outcome.bind_eq_ok.mp h
  obtain ⟨htarget, hfresh, rfl⟩ := enter_eq_ok henter
  dsimp only at h
  split at h
  · obtain ⟨part, hpart, h⟩ := Outcome.bind_eq_ok.mp h
    cases h
    exact ⟨_, part, ⟨htarget, rfl, hfresh⟩, hpart, rfl⟩
  · cases h

/-- How a member is refused. -/
inductive Refused (contract : Contract) (merge : List String → Schema → Outcome Merged)
    (state : State) (m : Schema) : Failure → Prop
  /-- It names a component that was entered. -/
  | again {name : String} (entered : name ∈ m.entered) (seen : name ∈ state.seen) :
      Refused contract merge state m (.schema (.allOfCycle name) m.location)
  /-- It leads to no schema. -/
  | lost {e : Failure} (target : contract.target m = .error e) : Refused contract merge state m e
  /-- It leads to a schema that is no object. -/
  | other {t : Schema} (target : contract.target m = .ok t) (other : t.isObject = false) :
      Refused contract merge state m (.schema .allOfMember m.location)
  /-- The object that it leads to cannot be merged. -/
  | part {t : Schema} {e : Failure} (adds : Adds contract merge state m t)
      (fails : merge (m.entered ++ state.seen) t = .error e) : Refused contract merge state m e

theorem refused_of_addMember {state : State} {m : Schema} {e : Failure}
    (h : addMember contract merge state m = .error e) : Refused contract merge state m e := by
  rcases Outcome.bind_eq_error.mp h with henter | ⟨⟨t, seen⟩, henter, h⟩
  · rcases enter_eq_error henter with ⟨name, hentered, hseen, rfl⟩ | htarget
    · exact .again hentered hseen
    · exact .lost htarget
  · obtain ⟨htarget, hfresh, rfl⟩ := enter_eq_ok henter
    dsimp only at h
    split at h
    · rcases Outcome.bind_eq_error.mp h with h | ⟨part, -, h⟩
      · exact .part ⟨htarget, rfl, hfresh⟩ h
      · cases h
    · next hother =>
      cases h
      refine .other htarget ?_
      cases t with
      | object n p r ms => exact absurd rfl (hother n p r ms)
      | _ => rfl

/-- The components that were entered are those that the members name. -/
theorem mem_seen_of_foldlM {members : List Schema} {state final : State}
    (h : members.foldlM (addMember contract merge) state = .ok final) {name : String} :
    name ∈ final.seen ↔ name ∈ members.flatMap Schema.entered ∨ name ∈ state.seen := by
  induction members generalizing state with
  | nil =>
    cases h
    simp
  | cons m rest ih =>
    rw [List.foldlM_cons] at h
    obtain ⟨next, hnext, h⟩ := Outcome.bind_eq_ok.mp h
    obtain ⟨t, part, -, -, rfl⟩ := addMember_eq_ok hnext
    rw [ih h, List.flatMap_cons, List.mem_append, List.mem_append]
    tauto

theorem ofSchemaWithin_eq_ok {fuel : ℕ} {seen : List String} {s : Schema} {merged : Merged}
    (object : s.isObject = true) (h : ofSchemaWithin contract (fuel + 1) seen s = .ok merged) :
    ∃ final,
      s.members.foldlM (addMember contract (ofSchemaWithin contract fuel)) { seen } = .ok final ∧
      merged = final.merged.append { properties := s.properties, required := s.required } := by
  cases s with
  | object n properties required members =>
    obtain ⟨final, hfinal, h⟩ := Outcome.bind_eq_ok.mp h
    cases h
    exact ⟨final, hfinal, rfl⟩
  | _ => cases object

/-- A merge that fails comes to a member that is refused, after others that are added. -/
theorem ofSchemaWithin_eq_error {fuel : ℕ} {seen : List String} {s : Schema} {e : Failure}
    (h : ofSchemaWithin contract (fuel + 1) seen s = .error e) :
    ∃ before m after state, s.members = before ++ m :: after ∧
      before.foldlM (addMember contract (ofSchemaWithin contract fuel)) { seen } = .ok state ∧
      Refused contract (ofSchemaWithin contract fuel) state m e := by
  cases s with
  | object n properties required members =>
    rcases Outcome.bind_eq_error.mp h with h | ⟨final, -, h⟩
    · obtain ⟨before, m, after, state, hmembers, hbefore, hm⟩ := Outcome.foldlM_eq_error h
      exact ⟨before, m, after, state, hmembers, hbefore, refused_of_addMember hm⟩
    · cases h
  | _ => cases h

/-- How much merging can still come to: the schema, and all of the contract once for each
component that was not entered yet. -/
def ahead (contract : Contract) (seen : List String) (s : Schema) : ℕ :=
  s.nodes.length + contract.unseen seen * contract.nodeCount

/-- The object that a member leads to is ahead of it less far. A component that is entered counts no
more, and it is no larger than the contract. -/
theorem Adds.ahead_lt {state : State} {m t s : Schema} {seen : List String}
    (h : Adds contract merge state m t) (member : m ∈ s.members) (hseen : seen ⊆ state.seen) :
    ahead contract (m.entered ++ state.seen) t < ahead contract seen s := by
  have hanti : contract.unseen state.seen ≤ contract.unseen seen := Contract.unseen_anti hseen
  have hmember := Schema.length_nodes_of_mem_parts (Schema.mem_parts_of_mem_members member)
  unfold ahead
  by_cases href : ∃ location name, m = .reference location name
  · obtain ⟨location, name, rfl⟩ := href
    rcases Contract.targetWithin_reference h.target with rfl | ⟨⟨c, hc⟩, hmem⟩
    · cases h.object
    · have hlt := Contract.unseen_cons_lt hc (h.fresh name (List.mem_singleton_self name))
      have hcount := Contract.length_nodes_le_nodeCount hmem
      have hmul : (contract.unseen (name :: state.seen) + 1) * contract.nodeCount ≤
          contract.unseen seen * contract.nodeCount := Nat.mul_le_mul_right _ (by omega)
      rw [Nat.add_mul, Nat.one_mul] at hmul
      change t.nodes.length + contract.unseen (name :: state.seen) * contract.nodeCount < _
      omega
  · have hplain : ∀ location name, m ≠ .reference location name :=
      fun location name hm => href ⟨location, name, hm⟩
    have hself : m = t := Except.ok.inj ((Contract.target_eq_self hplain).symm.trans h.target)
    have hentered : m.entered = [] := by
      cases m with
      | reference location name => exact absurd rfl (hplain location name)
      | _ => rfl
    rw [hentered, List.nil_append, ← hself]
    have hmul := Nat.mul_le_mul_right contract.nodeCount hanti
    omega

theorem ofSchemaWithin_ends {fuel : ℕ} {seen : List String} {s : Schema}
    (enough : ahead contract seen s ≤ fuel) :
    (ofSchemaWithin contract fuel seen s).Avoids Failure.isStray := by
  induction fuel generalizing seen s with
  | zero =>
    rw [ahead, Schema.nodes_eq, List.length_cons] at enough
    omega
  | succ fuel ih =>
    intro e he
    obtain ⟨before, m, after, state, hmembers, hbefore, hrefused⟩ := ofSchemaWithin_eq_error he
    cases hrefused with
    | again => rfl
    | lost htarget => exact Contract.target_ends m e htarget
    | other => rfl
    | part hadds hfails =>
      have hmember : m ∈ s.members := hmembers ▸ List.mem_append_right _ List.mem_cons_self
      have hseen : seen ⊆ state.seen := fun name hname =>
        (mem_seen_of_foldlM hbefore).mpr (Or.inr hname)
      have hlt := hadds.ahead_lt hmember hseen
      exact ih (by omega) e hfails

theorem ofSchema_ends (s : Schema) : (ofSchema contract s).Avoids Failure.isStray :=
  ofSchemaWithin_ends (by rw [ahead, Contract.unseen_nil])

/-- In a contract whose references all lead to components, merging fails only over a fault. -/
theorem isSchema_of_ofSchema (closed : contract.Closed) {s : Schema}
    (within : s.Within (Table.keys contract.schemas)) {e : Failure}
    (h : ofSchema contract s = .error e) : e.isSchema = true := by
  have hmissing := (Excludes.missing closed).hereditary
  have hfound := (yields_ofSchema hmissing (.missing within)).avoids e h
  have hends := ofSchema_ends s e h
  cases e with
  | schema => rfl
  | missing => cases hfound
  | _ => cases hends

/-- The row of the objects that members lead to, each right after those that its own members
lead to. -/
inductive Row (contract : Contract) : List Schema → List Schema → Prop
  | nil : Row contract [] []
  | member {m t : Schema} {others below after : List Schema} (target : contract.target m = .ok t)
      (object : t.isObject = true) (inner : Row contract t.members below)
      (rest : Row contract others after) : Row contract (m :: others) (below ++ t :: after)

/-- There is at most one such row. -/
theorem Row.unique {members row row' : List Schema} (h : Row contract members row)
    (h' : Row contract members row') : row = row' := by
  induction h generalizing row' with
  | nil =>
    cases h'
    rfl
  | member htarget _ _ _ ihinner ihrest =>
    cases h' with
    | member htarget' _ hinner hrest =>
      cases htarget.symm.trans htarget'
      rw [ihinner hinner, ihrest hrest]

/-- What objects of a row say together: their properties written one after the other. -/
def ofRow (row : List Schema) : Merged :=
  { properties := Table.ofPairs (row.flatMap Schema.properties)
    required := row.flatMap Schema.required }

theorem append_ofRow (merged : Merged) (row : List Schema) :
    merged.append (ofRow row) =
      { properties :=
          (row.flatMap Schema.properties).foldl (fun t p => Table.put t p.1 p.2) merged.properties
        required := merged.required ++ row.flatMap Schema.required } := by
  rw [append, ofRow, Table.foldl_put_ofPairs]

theorem ofRow_append (first second : List Schema) :
    (ofRow first).append (ofRow second) = ofRow (first ++ second) := by
  rw [append, ofRow, ofRow, ofRow, List.flatMap_append, List.flatMap_append, Table.ofPairs_append]

theorem ofRow_concat (row : List Schema) (s : Schema) :
    (ofRow row).append { properties := s.properties, required := s.required } =
      ofRow (row ++ [s]) := by
  rw [← ofRow_append, append_ofRow, List.flatMap_singleton, List.flatMap_singleton]
  rfl

/-- Merging members one after the other appends their rows. -/
theorem row_of_foldlM
    (hmerge : ∀ seen t part, t.isObject = true → merge seen t = .ok part →
      ∃ row, Row contract t.members row ∧ part = ofRow (row ++ [t]))
    {members before : List Schema} {state final : State} (hstate : state.merged = ofRow before)
    (h : members.foldlM (addMember contract merge) state = .ok final) :
    ∃ row, Row contract members row ∧ final.merged = ofRow (before ++ row) := by
  induction members generalizing state before with
  | nil =>
    cases h
    exact ⟨[], .nil, by rw [hstate, List.append_nil]⟩
  | cons m rest ih =>
    rw [List.foldlM_cons] at h
    obtain ⟨next, hnext, h⟩ := Outcome.bind_eq_ok.mp h
    obtain ⟨t, part, hadds, hpart, rfl⟩ := addMember_eq_ok hnext
    obtain ⟨below, hbelow, rfl⟩ := hmerge _ t part hadds.object hpart
    have hnext : state.merged.append (ofRow (below ++ [t])) = ofRow (before ++ (below ++ [t])) := by
      rw [hstate, ofRow_append]
    obtain ⟨after, hafter, hfinal⟩ := ih hnext h
    refine ⟨below ++ t :: after, .member hadds.target hadds.object hbelow hafter, ?_⟩
    rw [hfinal, List.append_assoc, List.append_assoc, List.singleton_append]

theorem row_of_ofSchemaWithin {fuel : ℕ} {seen : List String} {s : Schema} {merged : Merged}
    (object : s.isObject = true) (h : ofSchemaWithin contract fuel seen s = .ok merged) :
    ∃ row, Row contract s.members row ∧ merged = ofRow (row ++ [s]) := by
  induction fuel generalizing seen s merged with
  | zero => cases h
  | succ fuel ih =>
    obtain ⟨final, hfinal, rfl⟩ := ofSchemaWithin_eq_ok object h
    have hstart : ({ seen } : State).merged = ofRow [] := rfl
    obtain ⟨row, hrow, hmerged⟩ :=
      row_of_foldlM (fun _ _ _ hobject hpart => ih hobject hpart) hstart hfinal
    exact ⟨row, hrow, by rw [hmerged, List.nil_append, ofRow_concat]⟩

/-- Merging an object of a contract that was read ends, with a fault of a schema if not with
an object. A merged object is flattened: its row is that of the objects its members lead to,
with itself at the end. Its properties are those of the row in the order in which each came
first, each with the schema that came last, and what is required is what any object of the row
requires. -/
theorem ofSchema_flattens {document : Tree} (parsed : Contract.ofTree document = .ok contract)
    {root s : Schema} (held : root ∈ contract.roots) (node : s ∈ root.nodes)
    (object : s.isObject = true) :
    (∀ e, ofSchema contract s = .error e → e.isSchema = true) ∧
      ∀ merged, ofSchema contract s = .ok merged →
        ∃ row, Row contract [s] row ∧ (∀ other, Row contract [s] other → other = row) ∧
          Table.keys merged.properties =
            (Table.keys (row.flatMap Schema.properties)).eraseDups ∧
          (∀ p ∈ merged.properties,
            Table.get? (row.flatMap Schema.properties).reverse p.1 = some p.2) ∧
          merged.required = row.flatMap Schema.required := by
  have hclosed := Contract.closed_of_ofTree parsed
  refine ⟨fun e h => isSchema_of_ofSchema hclosed ((hclosed root held).node node) h, ?_⟩
  intro merged h
  obtain ⟨inner, hinner, rfl⟩ := row_of_ofSchemaWithin object h
  have hself : contract.target s = .ok s := by
    cases s with
    | object => rfl
    | _ => cases object
  have hrow : Row contract [s] (inner ++ [s]) := .member hself object hinner .nil
  exact ⟨inner ++ [s], hrow, fun other hother => hother.unique hrow, Table.keys_ofPairs _,
    fun p hp => Table.get?_reverse_of_mem_ofPairs hp, rfl⟩

/-- A document of an empty interface and these components. -/
def componentsDocument (components : List (Scalar × Tree)) : Tree :=
  .map [(.text "openapi", .text "3.0.0"), (.text "paths", .map []),
    (.text "components", .map [(.text "schemas", .map components)])]

/-- An object that extends others by properties of types with these names. -/
def extending (bases : List String) (properties : List (String × String))
    (required : List String) : Tree :=
  .map [
    (.text "allOf", .list (bases.map fun base => linkTo ("#/components/schemas/" ++ base))),
    (.text "properties", .map (properties.map fun p =>
      (.text p.1, .map [(.text "type", .text p.2)]))),
    (.text "required", .list (required.map .text))]

/-- What is computed from a component of a document is about a schema that the contract holds. -/
theorem exists_component (document : Tree) (name : String) {β : Type} {f : Contract → Schema → β}
    {b : β} (h : (do
      let contract ← Contract.ofTree document
      let s ← need .missing (contract.schema? name)
      pure (f contract s)).toOption = some b) :
    ∃ contract s, Contract.ofTree document = .ok contract ∧ contract.schema? name = some s ∧
      s ∈ contract.roots ∧ f contract s = b := by
  obtain ⟨_, hread, rfl⟩ := Outcome.exists_of_map_toOption (f := id) (by rw [Option.map_id, h]; rfl)
  obtain ⟨contract, parsed, hread⟩ := Outcome.bind_eq_ok.mp hread
  obtain ⟨s, hfound, hread⟩ := Outcome.bind_eq_ok.mp hread
  have hfound := Outcome.need_eq_ok.mp hfound
  have hheld : s ∈ contract.roots :=
    List.mem_append_left _ (Table.mem_values.mpr ⟨_, Table.mem_of_get? hfound, rfl⟩)
  exact ⟨contract, s, parsed, hfound, hheld, Outcome.pure_eq_ok.mp hread⟩

/-- Letters are signed and dated, and what is signed or dated is a note. -/
def lettersDocument : Tree := componentsDocument [
  (.text "Note", extending [] [("number", "string"), ("text", "string")] ["number"]),
  (.text "Signed", extending ["Note"] [("number", "integer"), ("author", "string")] []),
  (.text "Dated", extending ["Note"] [("day", "string")] ["day"]),
  (.text "Letter", extending ["Signed", "Dated"] [("text", "boolean")] [])]

/-- A number stands where notes say it, with the schema that notes give it, as they come again
after what is signed. -/
theorem ofSchema_flattens_letter :
    ∃ contract letter merged row, Contract.ofTree lettersDocument = .ok contract ∧
      contract.schema? "Letter" = some letter ∧ ofSchema contract letter = .ok merged ∧
      Row contract [letter] row ∧
      Table.keys merged.properties = (Table.keys (row.flatMap Schema.properties)).eraseDups ∧
      (∀ p ∈ merged.properties,
        Table.get? (row.flatMap Schema.properties).reverse p.1 = some p.2) ∧
      merged.required = row.flatMap Schema.required ∧
      merged.properties.map (fun p => (p.1.text?, p.2.location)) = [
        (some "number", "#/components/schemas/Note/properties/number"),
        (some "text", "#/components/schemas/Letter/properties/text"),
        (some "author", "#/components/schemas/Signed/properties/author"),
        (some "day", "#/components/schemas/Dated/properties/day")] := by
  obtain ⟨contract, letter, parsed, hfound, hheld, hvalues⟩ := exists_component lettersDocument
    "Letter"
    (f := fun contract letter => (letter.isObject, (ofSchema contract letter).toOption.map
      fun merged => merged.properties.map fun p => (p.1.text?, p.2.location)))
    (b := (true, some [
      (some "number", "#/components/schemas/Note/properties/number"),
      (some "text", "#/components/schemas/Letter/properties/text"),
      (some "author", "#/components/schemas/Signed/properties/author"),
      (some "day", "#/components/schemas/Dated/properties/day")]))
    (by decide +kernel)
  obtain ⟨hobject, hmerged⟩ := Prod.mk.inj hvalues
  obtain ⟨merged, hmerged, hproperties⟩ := Outcome.exists_of_map_toOption hmerged
  obtain ⟨row, hrow, -, hkeys, hlast, hrequired⟩ :=
    (ofSchema_flattens parsed hheld (Schema.self_mem_nodes letter) hobject).2 merged hmerged
  exact ⟨contract, letter, merged, row, parsed, hfound, hmerged, hrow, hkeys, hlast, hrequired,
    hproperties⟩

end Merged

end ApiContract
