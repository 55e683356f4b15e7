import ApiContract.Proofs.Contract.Parameters

/-! # What schemas are read from

A node that holds a reference is read as a reference to a component, and any other node as
a schema with the notes of the node, whose parts are read from nodes below it, or stand for any
value where no node does.
-/
namespace ApiContract

theorem Tree.text?_eq_some {t : Tree} {s : String} : t.text? = some s ↔ t = .text s := by
  cases t with
  | scalar x => cases x <;> simp [Tree.text?]
  | _ => simp [Tree.text?]

namespace Schema

/-- The schemas right below a node. -/
def parts : Schema → List Schema
  | array _ items => [items]
  | map _ value => [value]
  | object _ properties _ members => properties.map Prod.snd ++ members
  | _ => []

def items? : Schema → Option Schema
  | array _ items => some items
  | _ => none

def value? : Schema → Option Schema
  | map _ value => some value
  | _ => none

def properties : Schema → List (Scalar × Schema)
  | object _ properties _ _ => properties
  | _ => []

def members : Schema → List Schema
  | object _ _ _ members => members
  | _ => []

theorem propertyNodes_eq (properties : List (Scalar × Schema)) :
    propertyNodes properties = (properties.map Prod.snd).flatMap nodes := by
  induction properties with
  | nil => rfl
  | cons p rest ih => rw [propertyNodes, ih, List.map_cons, List.flatMap_cons]

theorem memberNodes_eq (members : List Schema) : memberNodes members = members.flatMap nodes := by
  induction members with
  | nil => rfl
  | cons m rest ih => rw [memberNodes, ih, List.flatMap_cons]

/-- The nodes of a schema are itself and those of its parts. -/
theorem nodes_eq (s : Schema) : s.nodes = s :: s.parts.flatMap nodes := by
  cases s <;> simp [nodes, parts, propertyNodes_eq, memberNodes_eq]

theorem nodes_sublist_of_mem_parts {s p : Schema} (h : p ∈ s.parts) :
    p.nodes.Sublist (s.parts.flatMap nodes) :=
  List.sublist_flatten_of_mem (List.mem_map_of_mem h)

theorem self_mem_nodes (s : Schema) : s ∈ s.nodes := by
  rw [nodes_eq]
  exact List.mem_cons_self

theorem nodes_subset_of_mem_parts {s p : Schema} (h : p ∈ s.parts) : p.nodes ⊆ s.nodes := by
  rw [nodes_eq s]
  exact List.subset_cons_of_subset _ (nodes_sublist_of_mem_parts h).subset

theorem parts_induction {P : Schema → Prop} (h : ∀ s, (∀ p ∈ s.parts, P p) → P s) (s : Schema) :
    P s := by
  induction hn : s.nodes.length using Nat.strongRecOn generalizing s with
  | ind n ih =>
    subst hn
    refine h s fun p hp => ih _ ?_ p rfl
    have hle := (nodes_sublist_of_mem_parts hp).length_le
    rw [nodes_eq s, List.length_cons]
    omega

/-- The nodes of a node of a schema are nodes of the schema. -/
theorem nodes_subset {s n : Schema} (h : n ∈ s.nodes) : n.nodes ⊆ s.nodes := by
  induction s using parts_induction with
  | h s ih =>
    rw [nodes_eq s, List.mem_cons, List.mem_flatMap] at h
    rcases h with rfl | ⟨p, hp, hn⟩
    · exact List.Subset.refl _
    · exact List.Subset.trans (ih p hp hn) (nodes_subset_of_mem_parts hp)

end Schema

namespace SchemaScope

def IsPart (read : SchemaReading) (p : Schema) : Prop :=
  (∃ node location, read node location = .ok p) ∨ ∃ notes, p = .any notes

/-- A schema that is written out, with parts that were read on their own. -/
structure WrittenOut (read : SchemaReading) (s : Schema) : Prop where
  inline : ∀ location target, s ≠ .reference location target
  parts : ∀ p ∈ s.parts, IsPart read p

variable {read : SchemaReading} {fields : Fields} {notes : SchemaNotes} {location : String}
  {type : Tree} {s : Schema}

theorem isPart_readProperties {properties : List (Scalar × Schema)}
    (h : readProperties read fields location = .ok properties) :
    ∀ p ∈ properties, IsPart read p.2 := by
  unfold readProperties at h
  dsimp only at h
  split at h
  · obtain ⟨entries, -, h⟩ := Outcome.bind_eq_ok.mp h
    intro p hp
    obtain ⟨entry, -, hentry⟩ := Outcome.exists_of_mem_mapM h hp
    obtain ⟨name, -, hentry⟩ := Outcome.bind_eq_ok.mp hentry
    obtain ⟨property, hproperty, hentry⟩ := Outcome.bind_eq_ok.mp hentry
    cases hentry
    exact Or.inl ⟨_, _, hproperty⟩
  · cases h
    simp

theorem isPart_readMembers {value : Tree} {members : List Schema}
    (h : readMembers read value location = .ok members) : ∀ m ∈ members, IsPart read m := by
  obtain ⟨nodes, -, h⟩ := Outcome.bind_eq_ok.mp h
  intro m hm
  obtain ⟨node, -, hread⟩ := Outcome.exists_of_mem_mapM h hm
  exact Or.inl ⟨_, _, hread⟩

theorem isPart_readValue {additional : Tree} {value : Schema}
    (h : readValue read additional location = .ok value) : IsPart read value := by
  unfold readValue at h
  split at h
  · exact Or.inl ⟨_, _, h⟩
  · cases h
    exact Or.inr ⟨_, rfl⟩

theorem isPart_readItems {items : Schema} (h : readItems read fields location = .ok items) :
    IsPart read items := by
  unfold readItems at h
  split at h
  · cases h
    exact Or.inr ⟨_, rfl⟩
  · split at h
    · cases h
      exact Or.inr ⟨_, rfl⟩
    · exact Or.inl ⟨_, _, h⟩

/-- What a schema that is written out has of the fields of its node: its notes, and what each of
its parts is read from. -/
structure Formed (read : SchemaReading) (fields : Fields) (notes : SchemaNotes) (s : Schema) :
    Prop where
  inline : ∀ location target, s ≠ .reference location target
  noted : s.notes = notes
  properties : s.properties ≠ [] → readProperties read fields notes.location = .ok s.properties
  items : ∀ p, s.items? = some p → readItems read fields notes.location = .ok p
  value : ∀ p, s.value? = some p → ∃ additional,
    Fields.field? fields "additionalProperties" = some additional ∧
      readValue read additional notes.location = .ok p
  members : s.members ≠ [] → ∃ value, Fields.field? fields "allOf" = some value ∧
    readMembers read value notes.location = .ok s.members

theorem Formed.leaf (hinline : ∀ location target, s ≠ .reference location target)
    (hnotes : s.notes = notes) (hparts : s.parts = []) : Formed read fields notes s := by
  cases s with
  | array => cases hparts
  | map => cases hparts
  | object own properties required members =>
    obtain ⟨hproperties, hmembers⟩ := List.append_eq_nil_iff.mp hparts
    rw [List.map_eq_nil_iff] at hproperties
    exact ⟨hinline, hnotes, fun hne => absurd hproperties hne, nofun, nofun,
      fun hne => absurd hmembers hne⟩
  | _ => exact ⟨hinline, hnotes, fun hne => absurd rfl hne, nofun, nofun,
      fun hne => absurd rfl hne⟩

theorem field?_of_additional? {additional : Tree} (h : additional? fields = some additional) :
    Fields.field? fields "additionalProperties" = some additional := by
  unfold additional? at h
  split at h
  · next hfield =>
    split at h
    · cases h
    · rw [hfield, h]
  · exact h

theorem formed_readPlain (h : readPlain fields notes type = .ok s) :
    Formed read fields notes s := by
  unfold readPlain at h
  split at h
  · split at h <;> cases h <;> exact .leaf (by simp) rfl rfl
  · cases h
    exact .leaf (by simp) rfl rfl
  · obtain ⟨name, -, rfl⟩ := Outcome.map_eq_ok.mp h
    exact .leaf (by simp) rfl rfl
  · cases h

theorem formed_readObject {members : List Schema}
    (hmembers : members ≠ [] → ∃ value, Fields.field? fields "allOf" = some value ∧
      readMembers read value notes.location = .ok members)
    (h : readObject read fields notes members = .ok s) : Formed read fields notes s := by
  obtain ⟨properties, hproperties, h⟩ := Outcome.bind_eq_ok.mp h
  have hobject : (do let required ← readRequired fields
                     pure (Schema.object notes properties required members)) = .ok s →
      Formed read fields notes s := by
    intro h
    obtain ⟨required, -, h⟩ := Outcome.bind_eq_ok.mp h
    cases h
    exact ⟨by simp, rfl, fun _ => hproperties, nofun, nofun, hmembers⟩
  split at h
  · next additional hadditional =>
    split at h
    · obtain ⟨value, hvalue, h⟩ := Outcome.bind_eq_ok.mp h
      cases h
      refine ⟨by simp, rfl, fun hne => absurd rfl hne, nofun, ?_, fun hne => absurd rfl hne⟩
      rintro _ ⟨⟩
      exact ⟨additional, field?_of_additional? hadditional, hvalue⟩
    · exact hobject h
  · exact hobject h

theorem formed_readTyped (h : readTyped read fields notes type = .ok s) :
    Formed read fields notes s := by
  unfold readTyped at h
  split at h
  · next value hallOf =>
    obtain ⟨members, hmembers, h⟩ := Outcome.bind_eq_ok.mp h
    exact formed_readObject (fun _ => ⟨value, hallOf, hmembers⟩) h
  · split at h
    · obtain ⟨values, -, h⟩ := Outcome.bind_eq_ok.mp h
      cases h
      exact .leaf (by simp) rfl rfl
    · split at h
      · obtain ⟨items, hitems, h⟩ := Outcome.bind_eq_ok.mp h
        cases h
        refine ⟨by simp, rfl, fun hne => absurd rfl hne, ?_, nofun, fun hne => absurd rfl hne⟩
        rintro _ ⟨⟩
        exact hitems
      · split at h
        · exact formed_readObject (fun hne => absurd rfl hne) h
        · split at h
          · cases h
            exact .leaf (by simp) rfl rfl
          · exact formed_readPlain h

theorem formed_readBody (h : readBody read fields notes = .ok s) : Formed read fields notes s := by
  unfold readBody at h
  split at h
  · cases h
    exact .leaf (by simp) rfl rfl
  · split at h
    · exact formed_readTyped h
    · cases h
      exact .leaf (by simp) rfl rfl

theorem Formed.writtenOut (h : Formed read fields notes s) : WrittenOut read s := by
  refine ⟨h.inline, ?_⟩
  cases s with
  | array _ items =>
    intro p hp
    obtain rfl : p = items := List.mem_singleton.mp hp
    exact isPart_readItems (h.items p rfl)
  | map _ value =>
    intro p hp
    obtain rfl : p = value := List.mem_singleton.mp hp
    obtain ⟨additional, -, hvalue⟩ := h.value p rfl
    exact isPart_readValue hvalue
  | object _ properties _ members =>
    intro p hp
    rcases List.mem_append.mp hp with hp | hp
    · obtain ⟨property, hproperty, rfl⟩ := List.mem_map.mp hp
      exact isPart_readProperties (h.properties (List.ne_nil_of_mem hproperty)) property hproperty
    · obtain ⟨value, -, hmembers⟩ := h.members (List.ne_nil_of_mem hp)
      exact isPart_readMembers hmembers p hp
  | _ => exact nofun

theorem referenceTarget?_eq_some {scope : SchemaScope} {ref : Tree} {target : String}
    (h : scope.referenceTarget? ref = some target) :
    ∃ pointer, ref = .text pointer ∧ scope.start.toList <+: pointer.toList ∧
      target = Pointer.targetName pointer ∧ .text target ∈ scope.components := by
  unfold referenceTarget? at h
  split at h
  · next pointer htext =>
    dsimp only at h
    split at h
    · next hfound =>
      cases h
      rw [Bool.and_eq_true, List.isPrefixOf_iff_prefix, List.any_eq_true] at hfound
      obtain ⟨hstart, name, hname, hbeq⟩ := hfound
      obtain rfl := Scalar.beq_text_iff.mp hbeq
      exact ⟨pointer, Tree.text?_eq_some.mp htext, hstart, rfl, hname⟩
    · cases h
  · cases h

/-- A node is a map that refers to a component, or its schema is formed of the fields. -/
theorem readNode_eq_ok {scope : SchemaScope} {node : Tree}
    (h : scope.readNode read node location = .ok s) :
    ∃ fields, node.fields? = some fields ∧
      ((∃ ref target, Fields.field? fields "$ref" = some ref ∧
        scope.referenceTarget? ref = some target ∧ s = .reference location target) ∨
      Fields.field? fields "$ref" = none ∧ Formed read fields (notesOf fields location) s) := by
  unfold readNode at h
  split at h
  · next fields hfields =>
    refine ⟨fields, hfields, ?_⟩
    split at h
    · next ref href =>
      split at h
      · next target htarget =>
        cases h
        exact Or.inl ⟨ref, target, href, htarget, rfl⟩
      · cases h
    · next hnone => exact Or.inr ⟨hnone, formed_readBody h⟩
  · cases h

end SchemaScope

end ApiContract
