import ApiContract.Types.Components
import ApiContract.Proofs.Contract.Parts
import ApiContract.Proofs.Text.Cut

/-! # Where references to components lead

A reference to a component is told by the start of its pointer and its last token, while
following a pointer goes through all its tokens. Both come to the same node when one token
stands behind the start. With more tokens the pointer leads into the component that the
first of them names, whatever the component is that the last of them names.
-/
namespace ApiContract

theorem Fields.exists_field?_of_mem_keys {fields : Fields} {name : String}
    (h : .text name ∈ Table.keys fields) : ∃ value, Fields.field? fields name = some value := by
  obtain ⟨entry, hentry, hname⟩ := List.mem_map.mp h
  have hfound : (fields.find? fun e => e.1 == .text name).isSome :=
    List.find?_isSome.mpr ⟨entry, hentry, by rw [hname]; exact BEq.rfl⟩
  obtain ⟨found, hfound⟩ := Option.isSome_iff_exists.mp hfound
  exact ⟨found.2, by rw [Fields.field?, Table.get?, hfound, Option.map_some]⟩

/-- The members of a map are its keys. -/
theorem Tree.members?_of_fields? {t : Tree} {fields : Fields} (h : t.fields? = some fields) :
    t.members? = some (fields.map fun e => .scalar e.1) := by
  unfold fields? at h
  unfold members?
  split at h
  · next hopened =>
    cases h
    rw [hopened]
  · cases h

namespace Pointer

theorem follow_append (first rest : List String) (node : Tree) :
    follow (first ++ rest) node = follow first node >>= follow rest := by
  induction first generalizing node with
  | nil => rfl
  | cons token first ih =>
    cases h : child token node with
    | error e => simp [follow, h, bind, Except.bind]
    | ok next => simpa [follow, h, bind, Except.bind] using ih next

theorem child_of_fields {node : Tree} {fields : Fields} (h : node.fields? = some fields)
    (token : String) : child token node = need .missing (Fields.field? fields token) := by
  have hitems : node.items? = none := by
    unfold Tree.fields? at h
    unfold Tree.items?
    split at h
    · next hopened => rw [hopened]
    · cases h
  simp [child, hitems, h]

end Pointer

namespace ContractReader

/-- The tokens of the place of the components. -/
def componentTokens (root : Fields) : List String :=
  if isSwagger root then ["definitions"] else ["components", "schemas"]

theorem tokens?_component {root : Fields} {pointer : String} {rest : List Char}
    (h : pointer.toList = (componentStart root).toList ++ rest) :
    Pointer.tokens? pointer = some (componentTokens root ++
      (Text.splitAt '/' rest).map fun t => String.ofList (Pointer.decode t)) := by
  unfold componentStart at h
  unfold componentTokens
  cases hswagger : isSwagger root with
  | true =>
    rw [hswagger] at h
    have hchars : pointer.toList = '#' :: '/' :: ("definitions".toList ++ '/' :: rest) := h
    have hname : Text.splitAt '/' "definitions".toList = ["definitions".toList] := by decide +kernel
    have hdecoded : String.ofList (Pointer.decode "definitions".toList) = "definitions" := by
      decide +kernel
    simp only [Pointer.tokens?, hchars, Text.splitAt_append, hname, List.map_append, List.map_cons,
      List.map_nil, hdecoded, if_true]
  | false =>
    rw [hswagger] at h
    have hchars : pointer.toList =
        '#' :: '/' :: ("components/schemas".toList ++ '/' :: rest) := h
    have hnames : (Text.splitAt '/' "components/schemas".toList).map
        (fun t => String.ofList (Pointer.decode t)) = ["components", "schemas"] := by
      decide +kernel
    simp only [Pointer.tokens?, hchars, Text.splitAt_append, List.map_append, hnames]
    rfl

theorem exists_slash_of_componentStart (root : Fields) :
    ∃ before, (componentStart root).toList = before ++ ['/'] := by
  unfold componentStart
  split
  · exact ⟨"#/definitions".toList, by decide +kernel⟩
  · exact ⟨"#/components/schemas".toList, by decide +kernel⟩

theorem mapOf_eq_of_fields {fields entries : Fields} {name : String}
    (h : (mapOf fields name).fields? = some entries) (hne : entries ≠ []) :
    Fields.field? fields name = some (mapOf fields name) := by
  unfold mapOf Tree.orElse at h ⊢
  split at h
  · next htruthy =>
    rw [if_pos htruthy]
    cases hvalue : Fields.field? fields name with
    | none =>
      rw [valueOf, hvalue] at htruthy
      cases htruthy
    | some value => simp [valueOf, hvalue]
  · cases h
    exact absurd rfl hne

theorem follow_componentTokens {document schemas : Tree} {root nodes : Fields}
    (hroot : document.fields? = some root) (hschemas : schemaTree document = .ok schemas)
    (hnodes : schemas.fields? = some nodes) (hne : nodes ≠ []) :
    Pointer.follow (componentTokens root) document = .ok schemas := by
  obtain ⟨fields, hfields, hschemas⟩ := Outcome.bind_eq_ok.mp hschemas
  rw [Outcome.need_eq_ok, hroot] at hfields
  cases hfields
  unfold componentTokens
  split at hschemas
  · next hswagger =>
    cases hschemas
    have hfield := mapOf_eq_of_fields hnodes hne
    simp [hswagger, Pointer.follow, Pointer.child_of_fields hroot, hfield, need, bind, Except.bind]
  · next hswagger =>
    obtain ⟨components, hcomponents, hschemas⟩ := Outcome.bind_eq_ok.mp hschemas
    rw [Outcome.need_eq_ok] at hcomponents
    cases hschemas
    have hfield := mapOf_eq_of_fields hnodes hne
    have hcomponentsNe : components ≠ [] := by
      rintro rfl
      cases hfield
    have houter := mapOf_eq_of_fields hcomponents hcomponentsNe
    simp [hswagger, Pointer.follow, Pointer.child_of_fields hroot,
      Pointer.child_of_fields hcomponents, houter, hfield, need, bind, Except.bind]

theorem scopeOf_eq_ok {root nodes : Fields} {schemas : Tree} {scope : SchemaScope}
    (h : scopeOf root schemas = .ok scope) (hnodes : schemas.fields? = some nodes) :
    scope = { start := componentStart root, components := Table.keys nodes } := by
  unfold scopeOf at h
  rw [Tree.members?_of_fields? hnodes] at h
  obtain ⟨members, hm, h⟩ := Outcome.bind_eq_ok.mp h
  cases hm
  obtain ⟨names, hnames, h⟩ := Outcome.bind_eq_ok.mp h
  cases h
  have hkeys := Outcome.map_of_mapM (k := id) (g := fun m => (m.scalar?).getD .null)
    (fun m n hmn => by rw [Outcome.need_eq_ok] at hmn; simp [hmn]) hnames
  simp only [List.map_id, List.map_map] at hkeys
  rw [hkeys]
  rfl

end ContractReader

open ContractReader

/-- Only a node that holds a reference is read as one. -/
theorem SchemaScope.read_eq_reference {scope : SchemaScope} {node : Tree}
    {location place target : String}
    (h : scope.read node location = .ok (.reference place target)) :
    ∃ pointer, referenceOf? node = some (.text pointer) ∧
      scope.start.toList <+: pointer.toList ∧ target = Pointer.targetName pointer ∧
      .text target ∈ scope.components := by
  unfold SchemaScope.read at h
  cases hsize : node.size with
  | zero =>
    rw [hsize] at h
    cases h
  | succ depth =>
    rw [hsize] at h
    obtain ⟨fields, hfields, ⟨ref, found, href, hfound, hs⟩ | ⟨-, hformed⟩⟩ := readNode_eq_ok h
    · cases hs
      obtain ⟨pointer, rfl, hstart, hname, hmem⟩ := referenceTarget?_eq_some hfound
      refine ⟨pointer, ?_, hstart, hname, hmem⟩
      rw [referenceOf?, hfields, Option.bind_some, href]
    · exact absurd rfl (hformed.inline place target)

/-- A reference to a component has a pointer whose last token names the component. The
pointer leads through the component that the first token behind the place of the components
names, so that with one such token it leads to the component itself. -/
theorem reference_target {document schemas node : Tree} {root nodes : Fields}
    {scope : SchemaScope} {location place target : String}
    (hroot : document.fields? = some root) (hschemas : schemaTree document = .ok schemas)
    (hnodes : schemas.fields? = some nodes) (hscope : scopeOf root schemas = .ok scope)
    (hread : scope.read node location = .ok (.reference place target)) :
    ∃ pointer raw first deeper, referenceOf? node = some (.text pointer) ∧
      Fields.field? nodes target = some raw ∧
      Pointer.tokens? pointer = some (componentTokens root ++ first :: deeper) ∧
      (first :: deeper).getLast? = some target ∧
      Pointer.resolve document pointer =
        (need .missing (Fields.field? nodes first) >>= Pointer.follow deeper) ∧
      (deeper = [] → Pointer.resolve document pointer = .ok raw) := by
  have hscopeEq := scopeOf_eq_ok hscope hnodes
  subst hscopeEq
  obtain ⟨pointer, href, ⟨rest, hrest⟩, hname, hmem⟩ := SchemaScope.read_eq_reference hread
  obtain ⟨raw, hraw⟩ := Fields.exists_field?_of_mem_keys hmem
  have hne : nodes ≠ [] := by
    rintro rfl
    cases hmem
  have htokens := tokens?_component hrest.symm
  have hlast : ((Text.splitAt '/' rest).map fun t => String.ofList (Pointer.decode t)).getLast? =
      some target := by
    obtain ⟨before, hbefore⟩ := exists_slash_of_componentStart root
    rw [List.getLast?_map, Text.getLast?_splitAt, hname, Pointer.targetName, ← hrest, hbefore,
      List.append_assoc, List.singleton_append, Text.afterLast_append]
    rfl
  cases hpieces : (Text.splitAt '/' rest).map fun t => String.ofList (Pointer.decode t) with
  | nil =>
    rw [hpieces] at hlast
    cases hlast
  | cons first deeper =>
    rw [hpieces] at htokens hlast
    have hresolve : Pointer.resolve document pointer =
        (need .missing (Fields.field? nodes first) >>= Pointer.follow deeper) := by
      rw [Pointer.resolve, htokens]
      show Pointer.follow (componentTokens root ++ first :: deeper) document = _
      rw [Pointer.follow_append, follow_componentTokens hroot hschemas hnodes hne]
      show Pointer.follow (first :: deeper) schemas = _
      rw [Pointer.follow, Pointer.child_of_fields hnodes]
    refine ⟨pointer, raw, first, deeper, href, hraw, htokens, hlast, hresolve, ?_⟩
    rintro rfl
    obtain rfl : first = target := by simpa using hlast
    rw [hresolve, hraw]
    rfl

def linkTo (pointer : String) : Tree := .map [(.text "$ref", .text pointer)]

/-- A component with a slash in its name, one with the name of a property of another, and a
reference to that property. -/
def linkedSchemas : Fields := [
  (.text "a/b", .map [(.text "type", .text "string")]),
  (.text "Pet", .map [
    (.text "type", .text "object"),
    (.text "properties", .map [(.text "Name", .map [(.text "type", .text "integer")])])]),
  (.text "Name", .map [(.text "type", .text "string")]),
  (.text "Names", .map [
    (.text "type", .text "array"),
    (.text "items", linkTo "#/components/schemas/Pet/properties/Name")])]

def linkedRoot : Fields := [
  (.text "openapi", .text "3.0.0"),
  (.text "paths", .map []),
  (.text "components", .map [(.text "schemas", .map linkedSchemas)])]

def linkedScope : SchemaScope :=
  { start := "#/components/schemas/", components := Table.keys linkedSchemas }

theorem reference_target_escaped :
    ∃ raw, schemaTree (.map linkedRoot) = .ok (.map linkedSchemas) ∧
      scopeOf linkedRoot (.map linkedSchemas) = .ok linkedScope ∧
      linkedScope.read (linkTo "#/components/schemas/a~1b") "#" = .ok (.reference "#" "a/b") ∧
      Fields.field? linkedSchemas "a/b" = some raw ∧
      Pointer.resolve (.map linkedRoot) "#/components/schemas/a~1b" = .ok raw := by
  have hroot : (Tree.map linkedRoot).fields? = some linkedRoot := rfl
  have hschemas : schemaTree (.map linkedRoot) = .ok (.map linkedSchemas) := rfl
  have hscope : scopeOf linkedRoot (.map linkedSchemas) = .ok linkedScope := rfl
  have hread : linkedScope.read (linkTo "#/components/schemas/a~1b") "#" =
      .ok (.reference "#" "a/b") := rfl
  obtain ⟨pointer, raw, first, deeper, href, hraw, htokens, -, -, hone⟩ :=
    reference_target hroot hschemas rfl hscope hread
  have hpointer : Pointer.tokens? "#/components/schemas/a~1b" =
      some ["components", "schemas", "a/b"] := by decide +kernel
  cases href
  rw [hpointer] at htokens
  cases htokens
  exact ⟨raw, hschemas, hscope, hread, hraw, hone rfl⟩

/-- A reference is bound to a component that its pointer does not lead to. -/
theorem reference_target_deep :
    (∃ contract, Contract.ofTree (.map linkedRoot) = .ok contract ∧
      (contract.schema? "Names").map Types.referenced = some ["Name"]) ∧
    ∃ raw found, linkedScope.read (linkTo "#/components/schemas/Pet/properties/Name") "#" =
        .ok (.reference "#" "Name") ∧
      Fields.field? linkedSchemas "Name" = some raw ∧
      Pointer.resolve (.map linkedRoot) "#/components/schemas/Pet/properties/Name" = .ok found ∧
      found ≠ raw := by
  constructor
  · exact Outcome.exists_of_map_toOption
      (f := fun contract : Contract => (contract.schema? "Names").map Types.referenced)
      (by decide +kernel)
  · exact ⟨.map [(.text "type", .text "string")], .map [(.text "type", .text "integer")],
      rfl, rfl, rfl, by simp⟩

end ApiContract
