import ApiContract.Proofs.Run.Dialects
import ApiContract.Proofs.Source.Imports

/-! # The forms of types

Mapping makes types of values only, in which each list and each map has one element. What an
operation returns may also be nothing or a raw response, and a dialect makes it asynchronous
as a whole. So nothing, raw responses and asynchronous types are never part of a list or a map,
and every type of a run has a text.
-/
namespace ApiContract

open Outcome Source

variable {contract : Contract} {settings : Settings} {marks : List TypeTables.Mark}
  {t : TypeTables}

namespace TypeRef

/-- The kinds of the values that schemas describe. -/
def valueKinds : List TypeKind :=
  [.primitive, .bean, .enum, .external, .list, .map, .binary, .any]

/-- A node for a value: it has one argument if it is a list or a map, and none otherwise. -/
structure NodeFormed (node : TypeRef) : Prop where
  kind : node.kind ∈ valueKinds
  element : node.kind = .list ∨ node.kind = .map → ∃ element, node.args = [element]
  leaf : node.kind ≠ .list → node.kind ≠ .map → node.args = []

def Formed (type : TypeRef) : Prop := ∀ node ∈ type.nodes, node.NodeFormed

variable {kind : TypeKind} {type : TypeRef}

theorem Formed.of_kind {name : String} {qualified : Option String}
    (simple : kind ∈ [.primitive, .bean, .enum, .external, .binary, .any]) :
    Formed (.mk kind name qualified []) := by
  refine forall_nodes_leaf ⟨?_, fun h => ?_, fun _ _ => rfl⟩
  · have hsub : [TypeKind.primitive, .bean, .enum, .external, .binary, .any] ⊆ valueKinds := by
      decide
    exact hsub simple
  · rcases h with rfl | rfl <;> exact absurd simple (by decide)

theorem Formed.wrapped (h : type.Formed) (hkind : kind = .list ∨ kind = .map) :
    Formed (.mk kind "" none [type]) := by
  refine forall_nodes_wrapped ⟨?_, fun _ => ⟨type, rfl⟩, fun hl hm => ?_⟩ h
  · rcases hkind with rfl | rfl <;> simp [TypeRef.kind, valueKinds]
  · exact absurd hkind (not_or.mpr ⟨hl, hm⟩)

/-- All types that mapping makes are types of values. -/
theorem made_formed : Made Formed where
  external _ := .of_kind (by decide)
  primitive _ _ := .of_kind (by decide)
  bean _ := .of_kind (by decide)
  enum _ := .of_kind (by decide)
  binary := .of_kind (by decide)
  any := .of_kind (by decide)
  list _ h := h.wrapped (.inl rfl)
  map _ h := h.wrapped (.inr rfl)

theorem Formed.fixed (h : type.Formed) : type.Fixed := by
  intro node hnode
  obtain ⟨hkind, helement, -⟩ := h node hnode
  refine ⟨fun he => ?_, fun he => ?_, fun hwraps => ?_⟩
  · exact absurd (he ▸ hkind) (by decide)
  · exact absurd (he ▸ hkind) (by decide)
  · obtain ⟨element, hargs⟩ := helement hwraps
    exact hargs ▸ List.cons_ne_nil _ _

theorem self_mem_nodes : ∀ type : TypeRef, type ∈ type.nodes
  | .mk _ _ _ _ => by simp [nodes]

mutual

/-- The nodes of a node are nodes of the whole. -/
theorem nodes_subset : ∀ type node : TypeRef, node ∈ type.nodes → node.nodes ⊆ type.nodes
  | .mk kind name qualified args, node, h => by
    rw [nodes, List.mem_cons] at h
    rcases h with rfl | h
    · exact List.Subset.refl _
    · rw [nodes]
      exact List.subset_cons_of_subset _ (nodes_subset_arguments args node h)

theorem nodes_subset_arguments : ∀ (args : List TypeRef) (node : TypeRef),
    node ∈ argumentNodes args → node.nodes ⊆ argumentNodes args
  | [], node, h => by simp [argumentNodes] at h
  | a :: rest, node, h => by
    rw [argumentNodes, List.mem_append] at h
    rw [argumentNodes]
    rcases h with h | h
    · exact List.subset_append_of_subset_left _ (nodes_subset a node h)
    · exact List.subset_append_of_subset_right _ (nodes_subset_arguments rest node h)

end

theorem mem_nodes_of_args {element : TypeRef} (h : type.args = [element]) :
    element ∈ type.nodes := by
  cases type with
  | mk kind name qualified args =>
    obtain rfl : args = [element] := h
    simp [nodes, argumentNodes, self_mem_nodes]

theorem Formed.part (h : type.Formed) {node : TypeRef} (hnode : node ∈ type.nodes) :
    node.Formed :=
  fun part hpart => h part (nodes_subset type node hnode hpart)

/-- A type that can stand in a unit. Each list and each map has one element, a type of values.
An asynchronous node is the whole type and has one argument, in which there is neither nothing
nor another asynchronous node. The type has a text in any dialect, and in none. -/
structure Standing (type : TypeRef) : Prop where
  element : ∀ node ∈ type.nodes, node.kind = .list ∨ node.kind = .map →
    ∃ element, node.args = [element] ∧ element.Formed
  outermost : ∀ node ∈ type.nodes, node.kind = .async →
    node = type ∧ ∃ plain, node.args = [plain] ∧
      ∀ part ∈ plain.nodes, part.kind ≠ .void ∧ part.kind ≠ .async
  text : ∀ settings dialect, Succeeds (typePiece dialect settings type)

theorem Formed.standing (h : type.Formed) : type.Standing where
  element node hnode hkind := by
    obtain ⟨element, hargs⟩ := (h node hnode).element hkind
    exact ⟨element, hargs, (h.part hnode).part (mem_nodes_of_args hargs)⟩
  outermost node hnode hkind := absurd (hkind ▸ (h node hnode).kind) (by decide)
  text settings dialect := by
    obtain ⟨piece, hpiece⟩ := exists_piece_fixed settings type h.fixed
    exact ⟨piece, hpiece dialect⟩

theorem standing_leaf {name : String} {qualified : Option String}
    (hkind : kind = .void ∨ kind = .rawResponse) : Standing (.mk kind name qualified []) where
  element := by
    refine forall_nodes_leaf fun h => ?_
    rcases hkind with rfl | rfl <;> simp [TypeRef.kind] at h
  outermost := by
    refine forall_nodes_leaf fun h => ?_
    rcases hkind with rfl | rfl <;> simp [TypeRef.kind] at h
  text settings dialect := by
    rcases hkind with rfl | rfl
    · exact succeeds_ok _
    · cases dialect <;> exact succeeds_ok _

/-- Around a type that is something and not asynchronous there may be an asynchronous one. -/
theorem Standing.wrapped (h : type.Standing)
    (hparts : ∀ part ∈ type.nodes, part.kind ≠ .void ∧ part.kind ≠ .async) :
    (TypeRef.async type).Standing where
  element := forall_nodes_wrapped (fun hkind => by simp [TypeRef.kind] at hkind) h.element
  outermost := by
    refine forall_nodes_wrapped (fun _ => ⟨rfl, type, rfl, hparts⟩) fun node hnode hkind => ?_
    exact absurd hkind (hparts node hnode).2
  text settings dialect := by
    cases dialect with
    | none => exact succeeds_ok _
    | some d =>
      rw [typePiece_async]
      exact (succeeds_map _).mpr (h.text settings (some d))

end TypeRef

namespace Signature

/-- What an operation returns, when it is neither asynchronous nor in a dialect. -/
abbrev Returns (type : TypeRef) : Prop := Returned TypeRef.Formed type

theorem Returns.standing {type : TypeRef} (h : Returns type) : type.Standing := by
  rcases h with rfl | rfl | h
  · exact TypeRef.standing_leaf (.inl rfl)
  · exact TypeRef.standing_leaf (.inr rfl)
  · exact h.standing

theorem Returns.parts {type : TypeRef} (h : Returns type) (hsome : type ≠ .void) :
    ∀ part ∈ type.nodes, part.kind ≠ .void ∧ part.kind ≠ .async := by
  rcases h with rfl | rfl | h
  · exact absurd rfl hsome
  · exact TypeRef.forall_nodes_leaf ⟨by decide, by decide⟩
  · intro part hpart
    have hkind := (h part hpart).kind
    exact ⟨fun he => absurd (he ▸ hkind) (by decide), fun he => absurd (he ▸ hkind) (by decide)⟩

/-- A signature with parameters that are values. In each dialect its return type is nothing, a
raw response or a value, or else the whole is asynchronous and gives something. -/
structure Formed (s : Signature) : Prop where
  parameters : ∀ b ∈ s.parameters, b.type.Formed
  returned : Returns s.returnType
  expressed : ∀ d : Dialect, ∃ plain, Returns plain ∧
    (plain = s.returnType ∨ plain = .binary ∧ s.returnType = .rawResponse) ∧
    (s.returnTypeFor d = plain ∨
      s.returnTypeFor d = .async plain ∧ plain ≠ .void ∧ s.isAsync = true)

theorem Formed.standing {s : Signature} (h : s.Formed) (d : Dialect) :
    (s.returnTypeFor d).Standing := by
  obtain ⟨plain, hplain, -, he | ⟨he, hsome, -⟩⟩ := h.expressed d
  · exact he ▸ hplain.standing
  · exact he ▸ hplain.standing.wrapped (hplain.parts hsome)

theorem Returns.eq_rawResponse {type : TypeRef} (h : Returns type)
    (hkind : type.kind = .rawResponse) : type = .rawResponse := by
  rcases h with rfl | rfl | h
  · cases hkind
  · rfl
  · exact absurd (hkind ▸ (h type type.self_mem_nodes).kind) (by decide)

/-- Before it is made asynchronous a return type is the declared one, or stands for it. -/
theorem Returns.plain {s : Signature} (h : Returns s.returnType) (d : Dialect) :
    plainReturn d s = s.returnType ∨
      plainReturn d s = .binary ∧ s.returnType = .rawResponse := by
  unfold plainReturn
  split
  · next hraw =>
    rw [Bool.and_eq_true, beq_iff_eq] at hraw
    exact .inr ⟨rfl, h.eq_rawResponse hraw.1⟩
  · exact .inl rfl

theorem Shaped.formed {op : Operation} {s : Signature} (h : s.Shaped TypeRef.Formed op) :
    s.Formed where
  parameters := h.parameters
  returned := h.returned
  expressed d := by
    have hplain := Returns.plain h.returned d
    refine ⟨plainReturn d s, ?_, hplain, ?_⟩
    · rcases hplain with he | ⟨he, -⟩
      · exact he ▸ h.returned
      · exact he ▸ .inr (.inr TypeRef.made_formed.binary)
    · by_cases hwrapped : s.isAsync = true ∧ d.supportsAsync = true
      · refine .inr ⟨returnTypeFor_wrapped hwrapped.1 hwrapped.2, fun hvoid => ?_, hwrapped.1⟩
        rcases hplain with he | ⟨he, -⟩
        · exact h.body hwrapped.1 (by rw [← he, hvoid]; rfl)
        · exact absurd (he.symm.trans hvoid)
            (by simp [TypeRef.binary, TypeRef.void, TypeRef.simple])
      · rw [not_and_or, Bool.not_eq_true, Bool.not_eq_true] at hwrapped
        exact .inl (returnTypeFor_plain hwrapped)

theorem formed_resolve (op : Operation) (method : String) :
    Step.Yields (TypeTables.Holding TypeRef.Formed) (fun _ => false) Formed
      (resolve contract settings op method) :=
  (shaped_resolve TypeRef.made_formed op method).weaken fun _ h => h.formed

end Signature

/-- The types that the units of a dialect mention: those of all fields, of the parameters of all
signatures, and what the signatures return in the dialect. -/
def Workspace.unitTypes (w : Workspace) (d : Dialect) : List TypeRef :=
  (Table.values w.tables.beans).flatMap beanTypes ++
    (Table.values w.signatures).flatMap fun s =>
      s.parameters.map Binding.type ++ [s.returnTypeFor d]

theorem Workspace.standing_unitTypes {w : Workspace} (ht : w.tables.Holding TypeRef.Formed)
    (hs : ∀ e ∈ w.signatures, e.2.Formed) (d : Dialect) :
    ∀ type ∈ w.unitTypes d, type.Standing := by
  intro type htype
  rcases List.mem_append.mp htype with htype | htype
  · obtain ⟨bean, hbean, htype⟩ := List.mem_flatMap.mp htype
    obtain ⟨entry, hentry, rfl⟩ := Table.mem_values.mp hbean
    obtain ⟨field, hfield, rfl⟩ := List.mem_map.mp htype
    exact (ht.fields entry hentry field hfield).standing
  · obtain ⟨s, hsigned, htype⟩ := List.mem_flatMap.mp htype
    obtain ⟨entry, hentry, rfl⟩ := Table.mem_values.mp hsigned
    rcases List.mem_append.mp htype with htype | htype
    · obtain ⟨binding, hbinding, rfl⟩ := List.mem_map.mp htype
      exact ((hs entry hentry).parameters binding hbinding).standing
    · exact List.mem_singleton.mp htype ▸ (hs entry hentry).standing d

namespace Generation

/-- The tables that a run ends with and all its signatures are made of formed types. -/
theorem Stages.formed {g : Generated} {w : Workspace} {ds : List Diagnostic} {built : Workspace}
    {final : Grouping.Grouped} {signed : Workspace}
    (h : Stages contract settings (.fresh contract) g w ds built final signed) :
    w.tables.Holding TypeRef.Formed ∧ ∀ e ∈ w.signatures, e.2.Formed := by
  have hbuilt : built.tables.Holding TypeRef.Formed := by
    have hretains : Step.Retains TypeRef.Formed (Types.buildTables contract) :=
      Types.retains_buildTables TypeRef.made_formed
    have hyields := hretains (.fresh contract) (TypeTables.blank_reset {} contract).holding
    rw [h.building] at hyields
    exact hyields.2
  have hnone : built.signatures = [] :=
    (Types.buildTables_of Step.KeepsSignatures.uniform).of_ok h.building
  obtain ⟨es, v, refused, ht, hs, hattempts⟩ := h.exists_attempts
  obtain ⟨htables, hsignatures⟩ := hattempts.yields Signature.formed_resolve (ht ▸ hbuilt)
    (by simp [hs, hnone])
  exact ⟨h.tables ▸ htables, h.signatures ▸ hsignatures⟩

theorem formed_generate {document : Tree} {g : Generated} {w : Workspace}
    (h : generate document settings = .ok g w) :
    w.tables.Holding TypeRef.Formed ∧ ∀ e ∈ w.signatures, e.2.Formed := by
  unfold generate at h
  cases parsed : Contract.ofTree document with
  | error e =>
    simp only [parsed] at h
    cases h
  | ok contract =>
    simp only [parsed] at h
    obtain ⟨ds, built, final, signed, hstages⟩ := exists_stages h
    exact hstages.formed

end Generation

namespace Types

/-- In all reachable tables the types of fields and aliases are types of values, and so is what
a schema is mapped to there. A signature that an operation gets there has values for its
parameters, and returns a value, a raw response or nothing, which each dialect leaves as it is
or makes asynchronous as a whole. Types of values can stand in units, and so can all types that
the units of a run mention. -/
theorem formed_of_reachable (reachable : Reachable contract marks t) :
    t.Holding TypeRef.Formed ∧
      (∀ schema owner role w type w', w.tables = t →
        mapSchema contract schema owner role w = .ok type w' → type.Formed) ∧
      (∀ settings op method w s w', w.tables = t →
        Signature.resolve contract settings op method w = .ok s w' →
        s.Formed ∧ ∀ d, (s.returnTypeFor d).Standing) ∧
      (∀ type : TypeRef, type.Formed → type.Standing) ∧
      ∀ document settings g w, generate document settings = .ok g w →
        ∀ d, ∀ type ∈ w.unitTypes d, type.Standing := by
  have ht : t.Holding TypeRef.Formed := reachable.holding TypeRef.made_formed
  refine ⟨ht, ?_, ?_, fun type htype => htype.standing, ?_⟩
  · rintro schema owner role w type w' rfl h
    have hgiving : Giving TypeRef.Formed (mapSchema contract) :=
      giving_mapSchema TypeRef.made_formed
    have hgives := hgiving schema owner role w ht
    rw [h] at hgives
    exact hgives.1
  · rintro settings op method w s w' rfl h
    have hyields : (Step.outcome (Signature.resolve contract settings op method w)).1.Yields
        (fun _ => false) Signature.Formed := (Signature.formed_resolve op method w ht).1
    rw [h] at hyields
    exact ⟨hyields, Signature.Formed.standing hyields⟩
  · intro document settings g w h d
    obtain ⟨htables, hsignatures⟩ := Generation.formed_generate h
    exact Workspace.standing_unitTypes htables hsignatures d

/-- A document with a list under a name, a bean with a map of such lists, and an asynchronous
operation that takes a list and returns a file. -/
def shelvesDocument : Tree :=
  .map [
    (.text "openapi", .text "3.0.0"),
    (.text "components", .map [(.text "schemas", .map [
      (.text "Titles", .map [(.text "type", .text "array"),
        (.text "items", .map [(.text "type", .text "string")])]),
      (.text "Shelf", .map [(.text "properties", .map [
        (.text "titles", .map [(.text "type", .text "object"),
          (.text "additionalProperties",
            .map [(.text "$ref", .text "#/components/schemas/Titles")])])])])])]),
    (.text "paths", .map [
      (.text "/scans", .map [(.text "get", .map [
        (.text "x-codegen-async", .scalar (.bool true)),
        (.text "parameters", .list [.map [
          (.text "name", .text "titles"), (.text "in", .text "query"),
          (.text "schema", .map [(.text "$ref", .text "#/components/schemas/Titles")])]]),
        (.text "responses", .map [
          (.text "200", .map [(.text "content", .map [(.text "application/octet-stream", .map [
            (.text "schema", .map [(.text "type", .text "string"),
              (.text "format", .text "binary")])])])])])])])])]

/-- The texts of the types that the units for the shelves mention in a dialect. -/
def shelfTexts (d : Dialect) : List (Option String) :=
  match generate shelvesDocument {} with
  | .ok _ w => (w.unitTypes d).map fun type =>
      (typePiece (some d) {} type).toOption.map Piece.text
  | .error _ _ => []

theorem formed_of_reachable_shelves :
    ∃ contract t g w, Contract.ofTree shelvesDocument = .ok contract ∧
      Reachable contract [] t ∧
      t.aliases.map (fun e => (e.1, e.2.kind)) = [("Titles", .list)] ∧
      t.Holding TypeRef.Formed ∧
      generate shelvesDocument {} = .ok g w ∧
      shelfTexts .jaxrs =
        [some "Map<String, List<String>>", some "List<String>",
          some "CompletionStage<Response>"] ∧
      ∀ type ∈ w.unitTypes .jaxrs, type.Standing := by
  have htexts : shelfTexts .jaxrs = [some "Map<String, List<String>>", some "List<String>",
      some "CompletionStage<Response>"] := by decide +kernel
  obtain ⟨contract, parsed, haliases⟩ := Outcome.exists_of_map_toOption
    (o := Contract.ofTree shelvesDocument)
    (f := fun contract => (Step.outcome (buildTables contract (.fresh contract))).2.aliases.map
      fun e => (e.1, e.2.kind))
    (b := [("Titles", .list)]) (by decide +kernel)
  have hbuilt : Reachable contract []
      (Step.outcome (buildTables contract (.fresh contract))).2 :=
    .build (w := .fresh contract) .fresh
  obtain ⟨hholding, -, -, -, hruns⟩ := formed_of_reachable hbuilt
  cases hrun : generate shelvesDocument {} with
  | error e w => simp [shelfTexts, hrun] at htexts
  | ok g w =>
    exact ⟨contract, _, g, w, parsed, hbuilt, haliases, hholding, rfl, htexts,
      hruns shelvesDocument {} g w hrun .jaxrs⟩

end Types

end ApiContract
