import ApiContract.Proofs.Contract.Addresses
import ApiContract.Proofs.Contract.Closed

/-! # Locations of schemas

A component, and each schema below it, stands at a location that is made of the names and indexes
on the way to it, written as they are. It is read from the node at the end of that way. The
location is a pointer to the node as long as no name on the way has a slash or what is read as an
escape in a pointer, and none is a key that is no text.
-/
namespace ApiContract

deriving instance DecidableEq for Scalar

/-- What a search finds in one of two related rows is related to what it finds in the other. -/
theorem exists_find?_of_forall₂ {α β : Type} {R : α → β → Prop} {as : List α} {bs : List β}
    {p : α → Bool} {q : β → Bool} (h : List.Forall₂ R as bs) (hpq : ∀ a b, R a b → p a = q b)
    {b : β} (hb : bs.find? q = some b) : ∃ a, as.find? p = some a ∧ R a b := by
  induction h with
  | nil => cases hb
  | cons hab _ ih =>
    rw [List.find?_cons] at hb
    rw [List.find?_cons, hpq _ _ hab]
    split at hb
    · cases hb
      exact ⟨_, rfl, hab⟩
    · exact ih hb

/-- The value under the key itself, and not under another one that counts as the same. -/
def Table.at? {α β : Type} [DecidableEq α] (t : Table α β) (k : α) : Option β :=
  (t.find? fun e => e.1 = k).map (·.2)

theorem Fields.at?_text (fields : Fields) (name : String) :
    Table.at? fields (.text name) = Fields.field? fields name := by
  have hsame : (fun e : Scalar × Tree => decide (e.1 = .text name)) = (·.1 == .text name) := by
    funext e
    rw [Bool.eq_iff_iff, decide_eq_true_iff, Scalar.beq_text_iff]
  rw [Table.at?, Fields.field?, Table.get?, hsame]

namespace Schema

/-- A step down a schema: to a property, to the items of an array, to the values of a map or to
a member of an object. -/
inductive Edge
  | property (key : Scalar)
  | items
  | value
  | member (index : ℕ)

namespace Edge

def part? : Edge → Schema → Option Schema
  | property key, s => Table.at? s.properties key
  | items, s => s.items?
  | value, s => s.value?
  | member index, s => s.members[index]?

/-- The node in the place of a part below the node of a schema. -/
def node? : Edge → Tree → Option Tree
  | property key, node => node.fields?.bind fun fields =>
    (Fields.field? fields "properties").bind fun value =>
      value.fields?.bind fun entries => Table.at? entries key
  | items, node => node.fields?.bind fun fields => Fields.field? fields "items"
  | value, node => node.fields?.bind fun fields => Fields.field? fields "additionalProperties"
  | member index, node => node.fields?.bind fun fields =>
    (Fields.field? fields "allOf").bind fun value =>
      value.items?.bind fun nodes => nodes[index]?

/-- What the step adds to a location. -/
def tokens : Edge → Outcome (List String)
  | property key => key.written.map fun name => ["properties", name]
  | items => .ok ["items"]
  | value => .ok ["additionalProperties"]
  | member index => .ok ["allOf", toString index]

/-- Whether the tokens of the step lead in a pointer where the step leads: the key of a property
has to be a plain text, and an index must not have too many digits. -/
def IsPlain : Edge → Prop
  | property key => ∃ name, key = .text name ∧ Pointer.IsPlain name
  | member index => index < 10 ^ Text.numeralLimit
  | _ => True

/-- The node that the steps lead to from a node. -/
def nodeAt? : List Edge → Tree → Option Tree
  | [], node => some node
  | e :: rest, node => (e.node? node).bind (nodeAt? rest)

def tokensAt : List Edge → Outcome (List String)
  | [] => .ok []
  | e :: rest => do
    let first ← e.tokens
    let others ← tokensAt rest
    pure (first ++ others)

variable {e : Edge} {edges : List Edge} {node next : Tree} {tokens : List String}

theorem isPlain_of_tokens (h : e.IsPlain) (htokens : e.tokens = .ok tokens) :
    ∀ t ∈ tokens, Pointer.IsPlain t := by
  have hword {word : String} (hslash : '/' ∉ word.toList) (htilde : '~' ∉ word.toList) :
      Pointer.IsPlain word := Pointer.isPlain_of_not_mem hslash htilde
  cases e with
  | property key =>
    obtain ⟨name, rfl, hname⟩ := h
    cases htokens
    simp only [List.forall_mem_cons]
    exact ⟨hword (by decide +kernel) (by decide +kernel), hname, by simp⟩
  | items =>
    cases htokens
    rw [List.forall_mem_singleton]
    exact hword (by decide +kernel) (by decide +kernel)
  | value =>
    cases htokens
    rw [List.forall_mem_singleton]
    exact hword (by decide +kernel) (by decide +kernel)
  | member index =>
    cases htokens
    simp only [List.forall_mem_cons]
    exact ⟨hword (by decide +kernel) (by decide +kernel), Pointer.isPlain_toString index, by simp⟩

theorem isPlain_of_tokensAt (h : ∀ e ∈ edges, e.IsPlain) (htokens : tokensAt edges = .ok tokens) :
    ∀ t ∈ tokens, Pointer.IsPlain t := by
  induction edges generalizing tokens with
  | nil =>
    cases htokens
    simp
  | cons e rest ih =>
    rw [List.forall_mem_cons] at h
    obtain ⟨first, hfirst, htokens⟩ := Outcome.bind_eq_ok.mp htokens
    obtain ⟨others, hothers, htokens⟩ := Outcome.bind_eq_ok.mp htokens
    cases htokens
    exact List.forall_mem_append.mpr ⟨isPlain_of_tokens h.1 hfirst, ih h.2 hothers⟩

theorem follow_of_tokens (h : e.IsPlain) (htokens : e.tokens = .ok tokens)
    (hnode : e.node? node = some next) : Pointer.follow tokens node = .ok next := by
  have hmoves (moves : List Pointer.Move) (hreadable : moves.all Pointer.Move.isReadable = true)
      (hdescend : Pointer.descend moves node = some next) :
      Pointer.follow (moves.map Pointer.Move.token) node = .ok next := by
    rw [Pointer.follow_tokens hdescend, if_pos hreadable]
  cases e with
  | property key =>
    obtain ⟨name, rfl, -⟩ := h
    cases htokens
    apply hmoves [.key "properties", .key name] rfl
    simp only [node?, Fields.at?_text] at hnode
    simpa [Pointer.descend, Pointer.Move.part?, Option.bind_assoc] using hnode
  | items =>
    cases htokens
    apply hmoves [.key "items"] rfl
    simpa [Pointer.descend, Pointer.Move.part?, node?] using hnode
  | value =>
    cases htokens
    apply hmoves [.key "additionalProperties"] rfl
    simpa [Pointer.descend, Pointer.Move.part?, node?] using hnode
  | member index =>
    cases htokens
    apply hmoves [.key "allOf", .item index]
    · simpa [Pointer.Move.isReadable, IsPlain] using h
    · simpa [Pointer.descend, Pointer.Move.part?, Option.bind_assoc, node?] using hnode

theorem follow_of_tokensAt (h : ∀ e ∈ edges, e.IsPlain) (htokens : tokensAt edges = .ok tokens)
    (hnode : nodeAt? edges node = some next) : Pointer.follow tokens node = .ok next := by
  induction edges generalizing node tokens with
  | nil =>
    cases htokens
    cases hnode
    rfl
  | cons e rest ih =>
    rw [List.forall_mem_cons] at h
    obtain ⟨first, hfirst, htokens⟩ := Outcome.bind_eq_ok.mp htokens
    obtain ⟨others, hothers, htokens⟩ := Outcome.bind_eq_ok.mp htokens
    obtain ⟨mid, hmid, hnode⟩ := Option.bind_eq_some_iff.mp hnode
    cases htokens
    rw [Pointer.follow_append]
    exact Outcome.bind_eq_ok.mpr ⟨mid, follow_of_tokens h.1 hfirst hmid, ih h.2 hothers hnode⟩

end Edge

/-- The schema that the steps lead to from a schema. -/
def partAt? : List Edge → Schema → Option Schema
  | [], s => some s
  | e :: rest, s => (e.part? s).bind (partAt? rest)

end Schema

namespace SchemaScope

section

open Schema (Edge)

variable {scope : SchemaScope} {read : SchemaReading} {fields : Fields} {notes : SchemaNotes}
  {node : Tree} {place : String} {s p : Schema}

/-- A part is read from the node in its place, or it stands for any value because there is no map
in its place. -/
inductive PartAt (read : SchemaReading) (place : String) (found : Option Tree) (p : Schema) : Prop
  | read (node : Tree) (isFound : found = some node) (isRead : read node place = .ok p)
  | any (noMap : ∀ node, found = some node → node.fields? = none)
    (isAny : p = .any { location := place })

/-- A property, read from its entry. -/
def readProperty (read : SchemaReading) (place : String) (e : Scalar × Tree) :
    Outcome (Scalar × Schema) := do
  let name ← e.1.written
  let property ← read e.2 (place ++ "/properties/" ++ name)
  pure (e.1, property)

theorem readProperty_eq_ok {e : Scalar × Tree} {property : Scalar × Schema}
    (h : readProperty read place e = .ok property) :
    e.1 = property.1 ∧ ∃ name, e.1.written = .ok name ∧
      read e.2 (place ++ "/properties/" ++ name) = .ok property.2 := by
  obtain ⟨name, hname, h⟩ := Outcome.bind_eq_ok.mp h
  obtain ⟨s, hs, h⟩ := Outcome.bind_eq_ok.mp h
  cases h
  exact ⟨rfl, name, hname, hs⟩

theorem readProperties_eq_ok {properties : List (Scalar × Schema)} (hne : properties ≠ [])
    (h : readProperties read fields place = .ok properties) :
    ∃ value entries, Fields.field? fields "properties" = some value ∧
      value.fields? = some entries ∧ entries.mapM (readProperty read place) = .ok properties := by
  unfold readProperties at h
  cases hvalue : Fields.field? fields "properties" with
  | none =>
    rw [hvalue] at h
    cases h
    exact absurd rfl hne
  | some value =>
    simp only [hvalue, Option.getD_some] at h
    split at h
    · obtain ⟨entries, hentries, h⟩ := Outcome.bind_eq_ok.mp h
      exact ⟨value, entries, rfl, Outcome.need_eq_ok.mp hentries, h⟩
    · cases h
      exact absurd rfl hne

theorem partAt_property {properties : List (Scalar × Schema)} {key : Scalar}
    (h : readProperties read fields place = .ok properties)
    (hp : Table.at? properties key = some p) :
    ∃ name, key.written = .ok name ∧ PartAt read (place ++ "/properties/" ++ name)
      ((Fields.field? fields "properties").bind fun value =>
        value.fields?.bind fun entries => Table.at? entries key) p := by
  obtain ⟨property, hproperty, rfl⟩ := Option.map_eq_some_iff.mp hp
  have hne : properties ≠ [] := List.ne_nil_of_mem (List.mem_of_find?_eq_some hproperty)
  obtain ⟨value, entries, hvalue, hentries, h⟩ := readProperties_eq_ok hne h
  obtain ⟨e, he, hread⟩ := exists_find?_of_forall₂ (p := fun e => e.1 = key)
    (Outcome.forall₂_of_mapM h) (fun _ _ hab => by rw [(readProperty_eq_ok hab).1]) hproperty
  obtain ⟨-, name, hname, hread⟩ := readProperty_eq_ok hread
  have hkey : e.1 = key := by simpa using List.find?_some he
  refine ⟨name, hkey ▸ hname, .read e.2 ?_ hread⟩
  simp [hvalue, hentries, Table.at?, he]

theorem partAt_items (h : readItems read fields place = .ok p) :
    PartAt read (place ++ "/items") (Fields.field? fields "items") p := by
  unfold readItems at h
  split at h
  · next hnone =>
    cases h
    rw [hnone]
    exact .any (by simp) rfl
  · next items hitems =>
    rw [hitems]
    split at h
    · next hnull =>
      cases h
      refine .any ?_ rfl
      rintro _ ⟨⟩
      unfold Tree.isNull at hnull
      split at hnull
      · rfl
      · cases hnull
    · exact .read items rfl h

theorem partAt_value {additional : Tree} (h : readValue read additional place = .ok p) :
    PartAt read (place ++ "/additionalProperties") (some additional) p := by
  unfold readValue at h
  split at h
  · exact .read additional rfl h
  · next hnone =>
    cases h
    refine .any ?_ rfl
    rintro _ ⟨⟩
    simpa using hnone

/-- A member that is a map is one of a list: the members of a map and of a text are scalars. -/
theorem items?_of_members? {value m : Tree} {members : List Tree} {index : ℕ}
    (h : value.members? = some members) (hm : members[index]? = some m)
    (hmap : m.fields?.isSome = true) : (value.items?.bind fun nodes => nodes[index]?) = some m := by
  unfold Tree.members? at h
  unfold Tree.items?
  split at h
  · next items hitems =>
    cases h
    rw [hitems]
    exact hm
  · cases h
    obtain ⟨e, -, rfl⟩ := List.mem_map.mp (List.mem_of_getElem? hm)
    cases hmap
  · cases h
    obtain ⟨c, -, rfl⟩ := List.mem_map.mp (List.mem_of_getElem? hm)
    cases hmap
  · cases h

theorem partAt_member {value : Tree} {members : List Schema} {index : ℕ}
    (hmaps : ∀ node place s, read node place = .ok s → node.fields?.isSome = true)
    (h : readMembers read value place = .ok members) (hp : members[index]? = some p) :
    PartAt read (place ++ "/allOf/" ++ toString index)
      (value.items?.bind fun nodes => nodes[index]?) p := by
  obtain ⟨nodes, hnodes, h⟩ := Outcome.bind_eq_ok.mp h
  have hrows := Outcome.forall₂_of_mapM h
  obtain ⟨hlt, rfl⟩ := List.getElem?_eq_some_iff.mp hp
  have hindex : index < nodes.zipIdx.length := hrows.length_eq ▸ hlt
  have hread := hrows.get hindex hlt
  simp only [List.get_eq_getElem, List.getElem_zipIdx, Nat.zero_add] at hread
  refine .read _ ?_ hread
  apply items?_of_members? (Outcome.need_eq_ok.mp hnodes) ?_ (hmaps _ _ _ hread)
  exact List.getElem?_eq_getElem _

/-- A step down a schema adds its tokens to the location and goes to the node in its place. -/
theorem partAt_of_part? {e : Edge}
    (hmaps : ∀ node place s, read node place = .ok s → node.fields?.isSome = true)
    (hfields : node.fields? = some fields) (hformed : Formed read fields notes s)
    (hp : e.part? s = some p) :
    ∃ tokens next, e.tokens = .ok tokens ∧
      next.toList = notes.location.toList ++ Pointer.trail tokens ∧
      PartAt read next (e.node? node) p := by
  cases e with
  | property key =>
    obtain ⟨property, hproperty, -⟩ := Option.map_eq_some_iff.mp hp
    have hne : s.properties ≠ [] := List.ne_nil_of_mem (List.mem_of_find?_eq_some hproperty)
    obtain ⟨name, hname, hpart⟩ := partAt_property (hformed.properties hne) hp
    refine ⟨["properties", name], notes.location ++ "/properties/" ++ name, ?_, ?_, ?_⟩
    · exact Outcome.map_eq_ok.mpr ⟨name, hname, rfl⟩
    · simp [Pointer.trail]
    · simpa only [Edge.node?, hfields, Option.bind_some] using hpart
  | items =>
    refine ⟨["items"], notes.location ++ "/items", rfl, by simp [Pointer.trail], ?_⟩
    simpa only [Edge.node?, hfields, Option.bind_some] using partAt_items (hformed.items p hp)
  | value =>
    obtain ⟨additional, hadditional, hvalue⟩ := hformed.value p hp
    refine ⟨["additionalProperties"], notes.location ++ "/additionalProperties", rfl,
      by simp [Pointer.trail], ?_⟩
    simpa only [Edge.node?, hfields, Option.bind_some, hadditional] using partAt_value hvalue
  | member index =>
    have hne : s.members ≠ [] := List.ne_nil_of_mem (List.mem_of_getElem? hp)
    obtain ⟨value, hvalue, hmembers⟩ := hformed.members hne
    refine ⟨["allOf", toString index], notes.location ++ "/allOf/" ++ toString index, rfl,
      by simp [Pointer.trail], ?_⟩
    simpa only [Edge.node?, hfields, Option.bind_some, hvalue] using
      partAt_member hmaps hmembers hp

/-- Without parts there is no step down a schema. -/
theorem part?_eq_none {e : Edge} (h : s.parts = []) : e.part? s = none := by
  cases s with
  | array => cases h
  | map => cases h
  | object own properties required members =>
    obtain ⟨hproperties, rfl⟩ := List.append_eq_nil_iff.mp h
    obtain rfl := List.map_eq_nil_iff.mp hproperties
    cases e <;> rfl
  | _ => cases e <;> rfl

/-- A schema stands at the place at which its node is read, which is a map. -/
theorem location_of_readWithin {depth : ℕ} (h : scope.readWithin depth node place = .ok s) :
    s.location = place ∧ node.fields?.isSome = true := by
  cases depth with
  | zero => cases h
  | succ depth =>
    obtain ⟨fields, hfields, ⟨_, _, -, -, rfl⟩ | ⟨-, hformed⟩⟩ := readNode_eq_ok h
    · exact ⟨rfl, by rw [hfields, Option.isSome_some]⟩
    · refine ⟨?_, by rw [hfields, Option.isSome_some]⟩
      rw [Schema.location, hformed.noted]
      rfl

/-- A step down a schema that was read leads to the node in the place of the part. -/
theorem exists_partAt_of_readWithin {depth : ℕ} {e : Edge}
    (h : scope.readWithin depth node place = .ok s) (hp : e.part? s = some p) :
    ∃ before tokens next, e.tokens = .ok tokens ∧
      next.toList = place.toList ++ Pointer.trail tokens ∧
      PartAt (scope.readWithin before) next (e.node? node) p := by
  cases depth with
  | zero => cases h
  | succ before =>
    obtain ⟨fields, hfields, ⟨_, _, -, -, rfl⟩ | ⟨-, hformed⟩⟩ := readNode_eq_ok h
    · rw [part?_eq_none rfl] at hp
      cases hp
    · exact ⟨before, partAt_of_part? (fun _ _ _ h => (location_of_readWithin h).2) hfields
        hformed hp⟩

/-- A way down a schema adds its tokens to the location and goes to the node in its place. -/
theorem partAt_of_partAt? {depth : ℕ} {edges : List Edge}
    (h : scope.readWithin depth node place = .ok s) (hp : s.partAt? edges = some p) :
    ∃ tokens depth', Edge.tokensAt edges = .ok tokens ∧
      p.location.toList = place.toList ++ Pointer.trail tokens ∧
      PartAt (scope.readWithin depth') p.location (Edge.nodeAt? edges node) p := by
  induction edges generalizing depth node place s with
  | nil =>
    cases hp
    obtain ⟨rfl, -⟩ := location_of_readWithin h
    exact ⟨[], depth, rfl, by simp [Pointer.trail], .read node rfl h⟩
  | cons e rest ih =>
    obtain ⟨mid, hmid, hp⟩ := Option.bind_eq_some_iff.mp hp
    obtain ⟨before, tokens, next, htokens, hnext, hpart⟩ := exists_partAt_of_readWithin h hmid
    cases hpart with
    | read sub hsub hread =>
      obtain ⟨others, depth', hothers, hlocation, hpart⟩ := ih hread hp
      refine ⟨tokens ++ others, depth', ?_, ?_, ?_⟩
      · exact Outcome.bind_eq_ok.mpr ⟨tokens, htokens,
          Outcome.bind_eq_ok.mpr ⟨others, hothers, rfl⟩⟩
      · rw [hlocation, hnext, Pointer.trail_append, List.append_assoc]
      · rwa [Edge.nodeAt?, hsub, Option.bind_some]
    | any noMap isAny =>
      subst isAny
      cases rest with
      | nil =>
        cases hp
        refine ⟨tokens, before, ?_, hnext, .any ?_ rfl⟩
        · exact Outcome.bind_eq_ok.mpr ⟨tokens, htokens, by simp [Edge.tokensAt, bind, Except.bind]⟩
        · simpa [Edge.nodeAt?] using noMap
      | cons e' rest =>
        rw [Schema.partAt?, part?_eq_none rfl] at hp
        cases hp

end

end SchemaScope

namespace ContractReader

theorem toList_componentStart (root : Fields) (name : String) :
    (componentStart root ++ name).toList =
      '#' :: Pointer.trail (componentTokens root ++ [name]) := by
  unfold componentStart componentTokens
  split
  · simp [Pointer.trail]
  · simp [Pointer.trail]

theorem isPlain_componentTokens (root : Fields) :
    ∀ t ∈ componentTokens root, Pointer.IsPlain t := by
  have hplain : ∀ t ∈ ["definitions", "components", "schemas"],
      '/' ∉ t.toList ∧ '~' ∉ t.toList := by decide +kernel
  intro t ht
  obtain ⟨hslash, htilde⟩ := hplain t (by unfold componentTokens at ht; split at ht <;> simp_all)
  exact Pointer.isPlain_of_not_mem hslash htilde

/-- A component was read from the node under its name. -/
theorem read_of_component {scope : SchemaScope} {entries : Fields}
    {components : Table String Schema} {name : String} {component : Schema}
    (h : entries.mapM (readComponent scope) = .ok components)
    (hcomponent : Table.get? components name = some component) :
    ∃ raw, Fields.field? entries name = some raw ∧
      scope.read raw (scope.start ++ name) = .ok component := by
  have hread : ∀ (e : Scalar × Tree) (c : String × Schema), readComponent scope e = .ok c →
      e.1 = .text c.1 ∧ scope.read e.2 (scope.start ++ c.1) = .ok c.2 := by
    intro e c hec
    obtain ⟨key, hkey, hec⟩ := Outcome.bind_eq_ok.mp hec
    obtain ⟨schema, hschema, hec⟩ := Outcome.bind_eq_ok.mp hec
    cases hec
    exact ⟨Scalar.text?_eq_some.mp (Outcome.need_eq_ok.mp hkey), hschema⟩
  obtain ⟨found, hfound, rfl⟩ := Option.map_eq_some_iff.mp hcomponent
  obtain ⟨e, he, hec⟩ := exists_find?_of_forall₂ (p := fun e => e.1 == .text name)
    (Outcome.forall₂_of_mapM h)
    (fun e c hec => by rw [(hread e c hec).1, Scalar.text_beq_text]) hfound
  obtain rfl : found.1 = name := by simpa using List.find?_some hfound
  refine ⟨e.2, ?_, (hread e found hec).2⟩
  rw [Fields.field?, Table.get?, he, Option.map_some]

end ContractReader

namespace Contract

open ContractReader Schema

/-- The location of a component, and of each schema below it, has the tokens of the way to it,
written as they are, and the schema was read from the node that the way leads to. A pointer reads
the tokens back just if none of them has a slash or an escape, and it leads to the node if all
keys on the way are such texts. -/
theorem locations_of_ofTree {document : Tree} {root : Fields} {contract : Contract}
    (hroot : document.fields? = some root) (h : Contract.ofTree document = .ok contract) :
    ∃ schemas nodes scope, schemaTree document = .ok schemas ∧ schemas.fields? = some nodes ∧
      scopeOf root schemas = .ok scope ∧
      ∀ name component edges part, contract.schema? name = some component →
        component.partAt? edges = some part →
        ∃ raw tokens depth, Fields.field? nodes name = some raw ∧
          Edge.tokensAt edges = .ok tokens ∧
          part.location = Pointer.bare (componentTokens root ++ name :: tokens) ∧
          SchemaScope.PartAt (scope.readWithin depth) part.location (Edge.nodeAt? edges raw) part ∧
          (Pointer.tokens? part.location = some (componentTokens root ++ name :: tokens) ↔
            Pointer.IsPlain name ∧ ∀ t ∈ tokens, Pointer.IsPlain t) ∧
          (Pointer.IsPlain name → (∀ e ∈ edges, e.IsPlain) →
            ∀ node, Edge.nodeAt? edges raw = some node →
              Pointer.resolve document part.location = .ok node) := by
  obtain ⟨root', hroot', hread⟩ := ofTree_eq_ok h
  obtain rfl : root' = root := Option.some.inj (hroot'.symm.trans hroot)
  obtain ⟨schemas, scope, nodes, paths, final, hschemas, hscope, hnodes, hcomponents, -⟩ :=
    readRoot_eq_ok hread
  refine ⟨schemas, nodes, scope, hschemas, hnodes, hscope, ?_⟩
  intro name component edges part hcomponent hpart
  obtain ⟨raw, hraw, hreadRaw⟩ := read_of_component hcomponents hcomponent
  obtain ⟨tokens, depth, htokens, hlocation, hat⟩ := SchemaScope.partAt_of_partAt? hreadRaw hpart
  have hstart : scope.start = componentStart root' := by rw [scopeOf_eq_ok hscope hnodes]
  have hbare : part.location = Pointer.bare (componentTokens root' ++ name :: tokens) := by
    rw [← String.toList_inj, hlocation, hstart, toList_componentStart, Pointer.bare,
      String.toList_ofList, List.cons_append, ← Pointer.trail_append, List.append_assoc,
      List.singleton_append]
  have hback : Pointer.tokens? part.location = some (componentTokens root' ++ name :: tokens) ↔
      Pointer.IsPlain name ∧ ∀ t ∈ tokens, Pointer.IsPlain t := by
    rw [hbare, Pointer.tokens?_bare_iff (by simp), List.forall_mem_append, List.forall_mem_cons]
    exact and_iff_right (isPlain_componentTokens root')
  refine ⟨raw, tokens, depth, hraw, htokens, hbare, hat, hback, ?_⟩
  intro hname hedges node hnode
  have hne : nodes ≠ [] := by
    rintro rfl
    cases hraw
  rw [Pointer.resolve, hback.mpr ⟨hname, Edge.isPlain_of_tokensAt hedges htokens⟩]
  show Pointer.follow (componentTokens root' ++ name :: tokens) document = .ok node
  rw [Pointer.follow_append, follow_componentTokens hroot hschemas hnodes hne]
  show Pointer.follow (name :: tokens) schemas = .ok node
  rw [Pointer.follow, Pointer.child_of_fields hnodes, hraw]
  exact Edge.follow_of_tokensAt hedges htokens hnode

/-- A document of one component. -/
def oneComponent (name : String) (node : Tree) : Fields := [
  (.text "openapi", .text "3.0.0"),
  (.text "paths", .map []),
  (.text "components", .map [(.text "schemas", .map [(.text name, node)])])]

def textNode : Tree := .map [(.text "type", .text "string")]

/-- An object with a list of composed objects, of which the second has texts by their names. -/
def shelfNode : Tree := .map [(.text "properties", .map [(.text "books", .map [
  (.text "type", .text "array"),
  (.text "items", .map [(.text "allOf", .list [
    .map [(.text "type", .text "object")],
    .map [(.text "properties", .map [
      (.text "notes", .map [(.text "additionalProperties", textNode)])])]])])])])]

theorem locations_of_ofTree_shelf :
    ∃ contract component part,
      Contract.ofTree (.map (oneComponent "Shelf" shelfNode)) = .ok contract ∧
      contract.schema? "Shelf" = some component ∧
      component.partAt? [.property (.text "books"), .items, .member 1, .property (.text "notes"),
        .value] = some part ∧
      part.location = "#/components/schemas/Shelf/properties/books/items/allOf/1" ++
        "/properties/notes/additionalProperties" ∧
      Pointer.resolve (.map (oneComponent "Shelf" shelfNode)) part.location = .ok textNode := by
  obtain ⟨contract, hcontract, hlocation⟩ := Outcome.exists_of_map_toOption
    (o := Contract.ofTree (.map (oneComponent "Shelf" shelfNode)))
    (f := fun contract => (contract.schema? "Shelf").bind fun component =>
      (component.partAt? [.property (.text "books"), .items, .member 1, .property (.text "notes"),
        .value]).map Schema.location)
    (b := some ("#/components/schemas/Shelf/properties/books/items/allOf/1" ++
      "/properties/notes/additionalProperties")) (by decide +kernel)
  obtain ⟨component, hcomponent, hlocation⟩ := Option.bind_eq_some_iff.mp hlocation
  obtain ⟨part, hpart, hlocation⟩ := Option.map_eq_some_iff.mp hlocation
  have hroot : (Tree.map (oneComponent "Shelf" shelfNode)).fields? =
      some (oneComponent "Shelf" shelfNode) := rfl
  obtain ⟨schemas, nodes, scope, hschemas, hnodes, -, hlocated⟩ :=
    locations_of_ofTree hroot hcontract
  obtain ⟨raw, tokens, depth, hraw, -, -, -, -, hresolve⟩ :=
    hlocated "Shelf" component _ part hcomponent hpart
  cases hschemas
  cases hnodes
  cases hraw
  have hword {word : String} (h : '/' ∉ word.toList ∧ '~' ∉ word.toList) : Pointer.IsPlain word :=
    Pointer.isPlain_of_not_mem h.1 h.2
  refine ⟨contract, component, part, hcontract, hcomponent, hpart, hlocation, ?_⟩
  refine hresolve (hword (by decide +kernel)) ?_ textNode rfl
  simp only [List.forall_mem_cons]
  refine ⟨⟨"books", rfl, hword (by decide +kernel)⟩, trivial, ?_,
    ⟨"notes", rfl, hword (by decide +kernel)⟩, trivial, by simp⟩
  exact Nat.one_lt_pow (by decide) (by decide)

/-- The slash in the name of a component parts its location, which leads nowhere. -/
theorem location_parted_by_slash :
    ∃ contract component, Contract.ofTree (.map (oneComponent "a/b" textNode)) = .ok contract ∧
      contract.schema? "a/b" = some component ∧
      component.location = "#/components/schemas/a/b" ∧
      Pointer.resolve (.map (oneComponent "a/b" textNode)) component.location = .error .missing ∧
      Pointer.resolve (.map (oneComponent "a/b" textNode)) "#/components/schemas/a~1b" =
        .ok textNode := by
  obtain ⟨contract, hcontract, hlocation⟩ := Outcome.exists_of_map_toOption
    (o := Contract.ofTree (.map (oneComponent "a/b" textNode)))
    (f := fun contract => (contract.schema? "a/b").map Schema.location)
    (b := some "#/components/schemas/a/b") (by decide +kernel)
  obtain ⟨component, hcomponent, hlocation⟩ := Option.map_eq_some_iff.mp hlocation
  refine ⟨contract, component, hcontract, hcomponent, hlocation, ?_, rfl⟩
  rw [hlocation]
  rfl

end Contract

end ApiContract
