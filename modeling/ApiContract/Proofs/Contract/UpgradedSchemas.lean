import ApiContract.Proofs.Contract.Fields
import ApiContract.Proofs.Contract.Targets
import ApiContract.Proofs.Contract.Unplaced
import ApiContract.Proofs.Refines

/-! # Schemas of the newer version

A schema node of the older version becomes one of the newer version when the start of each
reference in it is replaced, wherever a schema stands below it. What is data to the reader,
such as the values of an enumeration, stays as it is. The schema that is read from the new
node differs from that of the old one in its places only.
-/
namespace ApiContract

theorem Tree.size_pos (t : Tree) : 0 < t.size := by
  induction hn : sizeOf t using Nat.strong_induction_on generalizing t with
  | _ n ih =>
    subst hn
    cases t with
    | loop label body =>
      have hsmaller : sizeOf body < sizeOf (loop label body) := by
        rw [loop.sizeOf_spec]
        omega
      rw [size]
      exact ih _ hsmaller body rfl
    | _ => simp [size]

namespace Upgrade

def oldStart : String := "#/definitions/"

def newStart : String := "#/components/schemas/"

/-- A reference to a component, with the new start for the old. -/
def pointer (ref : Tree) : Tree :=
  match ref.text? with
  | some r =>
    if oldStart.toList.isPrefixOf r.toList then
      .text (newStart ++ String.ofList (r.toList.drop oldStart.toList.length))
    else ref
  | none => ref

/-- A map with each of its values rewritten. -/
def values (inner : Tree → Tree) : Tree → Tree :=
  Tree.mapFields fun fields => fields.map fun e => (e.1, inner e.2)

/-- A list with each of its items rewritten. -/
def items (inner : Tree → Tree) (t : Tree) : Tree :=
  match t.items? with
  | some items => .list (items.map inner)
  | none => t

/-- What becomes of the value of a keyword, `inner` being what becomes of a schema. -/
def keyword (inner : Tree → Tree) (key : String) (value : Tree) : Tree :=
  if key = "$ref" then pointer value
  else if key = "properties" then values inner value
  else if key = "allOf" then items inner value
  else if key = "items" ∨ key = "additionalProperties" then inner value
  else value

def schemaWithin : ℕ → Tree → Tree
  | 0 => id
  | depth + 1 => Tree.mapFields (Fields.rewrite (keyword (schemaWithin depth)))

/-- A schema node, as deep as there are nodes. -/
def schema (t : Tree) : Tree := schemaWithin t.size t

end Upgrade

namespace SchemaScope

open Upgrade Schema

variable {inner : Tree → Tree} {read read' : SchemaReading} {room : ℕ} {fields : Fields}
  {notes notes' : SchemaNotes} {location location' : String}

/-- A rewriting that makes maps of maps and leaves all else alone. -/
def Rewrites (inner : Tree → Tree) : Prop :=
  ∀ t, inner t = t ∨ (t.fields?.isSome = true ∧ ∃ fields, inner t = .map fields)

theorem rewrites_schemaWithin (depth : ℕ) : Rewrites (schemaWithin depth) := by
  intro t
  cases depth with
  | zero => exact Or.inl rfl
  | succ depth =>
    cases hfields : t.fields? with
    | none =>
      left
      exact Tree.mapFields_of_fields?_eq_none hfields
    | some fields =>
      right
      exact ⟨rfl, _, Tree.mapFields_of_fields? hfields⟩

theorem Rewrites.scalar (h : Rewrites inner) (s : Scalar) : inner (.scalar s) = .scalar s :=
  (h (.scalar s)).resolve_right fun hs => Bool.false_ne_true hs.1

theorem Rewrites.isNull (h : Rewrites inner) (t : Tree) : (inner t).isNull = t.isNull := by
  rcases h t with he | ⟨hfields, fields, he⟩
  · rw [he]
  · rw [he]
    cases t with
    | scalar s => cases hfields
    | _ => rfl

theorem Rewrites.isSome_fields? (h : Rewrites inner) (t : Tree) :
    (inner t).fields?.isSome = t.fields?.isSome := by
  rcases h t with he | ⟨hfields, fields, he⟩
  · rw [he]
  · rw [he, hfields]
    rfl

/-- The members of a rewritten list are the rewritten ones, and what is no list has none that
a rewriting changes. -/
theorem Rewrites.members?_items (h : Rewrites inner) (t : Tree) :
    (items inner t).members? = t.members?.map (List.map inner) := by
  unfold items Tree.items? Tree.members?
  cases hopened : t.opened with
  | list items => rfl
  | map entries =>
    have hkeys : ∀ e : Scalar × Tree, inner (.scalar e.1) = .scalar e.1 := fun e => h.scalar e.1
    simp [hopened, hkeys]
  | scalar s =>
    cases s with
    | text s =>
      have hchars : ∀ c : Char, inner (.text (String.singleton c)) = .text (String.singleton c) :=
        fun c => h.scalar _
      simp [hopened, hchars]
    | _ => simp [hopened]
  | loop label body => simp [hopened]
  | back label => simp [hopened]

theorem Rewrites.size_le_of_member (h : Rewrites inner) {t m : Tree} {members : List Tree}
    (hmembers : t.members? = some members) (hm : m ∈ members) :
    (inner m).size ≤ (items inner t).size := by
  have hscalar : ∀ s : Scalar, (inner (.scalar s)).size ≤ (items inner t).size := by
    intro s
    rw [h.scalar]
    exact Tree.size_pos _
  unfold Tree.members? at hmembers
  cases hopened : t.opened with
  | list nodes =>
    rw [hopened] at hmembers
    cases hmembers
    have hitems : items inner t = .list (members.map inner) := by
      simp [items, Tree.items?, hopened]
    have hle := Tree.size_le_listSize (List.mem_map_of_mem (f := inner) hm)
    rw [hitems, Tree.size]
    omega
  | map entries =>
    rw [hopened] at hmembers
    cases hmembers
    obtain ⟨e, -, rfl⟩ := List.mem_map.mp hm
    exact hscalar _
  | scalar s =>
    rw [hopened] at hmembers
    cases s with
    | text s =>
      cases hmembers
      obtain ⟨c, -, rfl⟩ := List.mem_map.mp hm
      exact hscalar _
    | _ => cases hmembers
  | loop label body =>
    rw [hopened] at hmembers
    cases hmembers
  | back label =>
    rw [hopened] at hmembers
    cases hmembers

/-- The keywords whose values hold schemas or references. -/
def nodeKeywords : List String := ["$ref", "properties", "allOf", "items", "additionalProperties"]

theorem field?_keyword {k : String} (hk : k ∉ nodeKeywords) :
    Fields.field? (Fields.rewrite (keyword inner) fields) k = Fields.field? fields k := by
  have hsame : keyword inner k = id := by
    funext v
    simp only [nodeKeywords, List.mem_cons, List.not_mem_nil, or_false, not_or] at hk
    simp [keyword, hk]
  rw [Fields.field?_rewrite, hsame, Option.map_id, id]

/-- A reading of rewritten nodes that follows a reading of nodes, given room for a node. -/
structure Follows (inner : Tree → Tree) (read read' : SchemaReading) (room : ℕ) : Prop where
  rewrites : Rewrites inner
  part : ∀ t, (inner t).size ≤ room → ∀ location location',
    Outcome.Refines Alike (read t location) (read' (inner t) location')

theorem readProperties_eq {value : Tree} {entries : Fields}
    (hvalue : (Fields.field? fields "properties").getD .null = value)
    (hentries : value.fields? = some entries) :
    readProperties read fields location = (entries.mapM fun e => do
      let name ← e.1.written
      let property ← read e.2 (location ++ "/properties/" ++ name)
      pure (e.1, property)) := by
  unfold readProperties
  dsimp only
  rw [hvalue, hentries]
  split
  · rfl
  · next hfalsy =>
    have hempty : entries = [] := by
      cases value with
      | scalar s => cases hentries
      | list items => cases hentries
      | map fields =>
        cases hentries
        simpa [Tree.isTruthy] using hfalsy
      | loop label body => exact absurd rfl hfalsy
      | back label => cases hentries
    rw [hempty]
    rfl

/-- Properties that are no map are the same for both, and none when there are any. -/
theorem readProperties_of_fields?_eq_none {read : SchemaReading}
    {properties : List (Scalar × Schema)}
    (hvalue : ((Fields.field? fields "properties").getD .null).fields? = none)
    (h : readProperties read fields location = .ok properties) :
    properties = [] ∧ ((Fields.field? fields "properties").getD .null).isTruthy = false := by
  unfold readProperties at h
  dsimp only at h
  rw [hvalue] at h
  split at h
  · cases h
  · next hfalsy =>
    cases h
    exact ⟨rfl, by simpa using hfalsy⟩

theorem refines_readProperties (h : Follows inner read read' room)
    (hroom : Tree.entriesSize (Fields.rewrite (keyword inner) fields) ≤ room) :
    Outcome.Refines (List.Forall₂ fun p p' => p'.1 = p.1 ∧ Alike p.2 p'.2)
      (readProperties read fields location)
      (readProperties read' (Fields.rewrite (keyword inner) fields) location') := by
  have hfield : Fields.field? (Fields.rewrite (keyword inner) fields) "properties" =
      (Fields.field? fields "properties").map (values inner) := by
    rw [Fields.field?_rewrite]
    congr
  cases hentries : ((Fields.field? fields "properties").getD .null).fields? with
  | none =>
    intro properties hread
    obtain ⟨rfl, hfalsy⟩ := readProperties_of_fields?_eq_none hentries hread
    have hsame : (Fields.field? (Fields.rewrite (keyword inner) fields) "properties").getD .null =
        (Fields.field? fields "properties").getD .null := by
      rw [hfield]
      cases hvalue : Fields.field? fields "properties" with
      | none => rfl
      | some value =>
        rw [hvalue, Option.getD_some] at hentries
        exact Tree.mapFields_of_fields?_eq_none hentries
    refine ⟨[], ?_, .nil⟩
    rw [readProperties, hsame]
    simp only [hfalsy, Bool.false_eq_true, if_false]
  | some entries =>
    cases hvalue : Fields.field? fields "properties" with
    | none =>
      rw [hvalue] at hentries
      cases hentries
    | some value =>
      rw [hvalue, Option.getD_some] at hentries
      have hvalues : values inner value = .map (entries.map fun e => (e.1, inner e.2)) :=
        Tree.mapFields_of_fields? hentries
      rw [hvalue, Option.map_some, hvalues] at hfield
      have hsize := Fields.size_le_of_field? hfield
      rw [Tree.size] at hsize
      rw [readProperties_eq (by rw [hvalue]; rfl) hentries,
        readProperties_eq (congrArg (Option.getD · .null) hfield) rfl]
      refine .mapM_map fun e he => ?_
      have hle := Tree.size_le_entriesSize
        (List.mem_map_of_mem (f := fun e : Scalar × Tree => (e.1, inner e.2)) he)
      dsimp only at hle
      have hfits : (inner e.2).size ≤ room := by omega
      refine .bind_same fun name _ => ?_
      exact .bind (h.part e.2 hfits _ _) fun s s' _ hs => .pure ⟨rfl, hs⟩

theorem refines_readMembers (h : Follows inner read read' room) {value : Tree}
    (hroom : (items inner value).size ≤ room) :
    Outcome.Refines (List.Forall₂ Alike) (readMembers read value location)
      (readMembers read' (items inner value) location') := by
  unfold readMembers
  rw [h.rewrites.members?_items]
  cases hmembers : value.members? with
  | none => exact .error
  | some members =>
    refine .bind (R := fun l l' => l = members ∧ l' = members.map inner)
      (.need fun l hl => ⟨members.map inner, rfl, (Option.some.inj hl).symm, rfl⟩) ?_
    rintro _ _ - ⟨rfl, rfl⟩
    rw [List.zipIdx_map]
    refine .mapM_map fun m hm => ?_
    have hle := h.rewrites.size_le_of_member hmembers (List.fst_mem_of_mem_zipIdx hm)
    exact h.part m.1 (hle.trans hroom) _ _

theorem alike_any (place place' : String) :
    Alike (.any { location := place }) (.any { location := place' }) := rfl

theorem refines_readItems (h : Follows inner read read' room)
    (hroom : Tree.entriesSize (Fields.rewrite (keyword inner) fields) ≤ room) :
    Outcome.Refines Alike (readItems read fields location)
      (readItems read' (Fields.rewrite (keyword inner) fields) location') := by
  have hfield : Fields.field? (Fields.rewrite (keyword inner) fields) "items" =
      (Fields.field? fields "items").map inner := by
    rw [Fields.field?_rewrite]
    congr
  unfold readItems
  cases hvalue : Fields.field? fields "items" with
  | none =>
    rw [hfield, hvalue]
    exact .ok (alike_any _ _)
  | some value =>
    rw [hvalue] at hfield
    have hsize := Fields.size_le_of_field? hfield
    rw [hfield]
    simp only [Option.map_some, h.rewrites.isNull]
    split
    · exact .ok (alike_any _ _)
    · exact h.part value (hsize.trans hroom) _ _

theorem refines_readValue (h : Follows inner read read' room) {additional : Tree}
    (hroom : (inner additional).size ≤ room) :
    Outcome.Refines Alike (readValue read additional location)
      (readValue read' (inner additional) location') := by
  unfold readValue
  rw [h.rewrites.isSome_fields?]
  split
  · exact h.part additional hroom _ _
  · exact .ok (alike_any _ _)

theorem Rewrites.additional? (h : Rewrites inner) (fields : Fields) :
    additional? (Fields.rewrite (keyword inner) fields) = (additional? fields).map inner := by
  have hfield : Fields.field? (Fields.rewrite (keyword inner) fields) "additionalProperties" =
      (Fields.field? fields "additionalProperties").map inner := by
    rw [Fields.field?_rewrite]
    congr
  unfold SchemaScope.additional?
  rw [hfield]
  cases Fields.field? fields "additionalProperties" with
  | none => rfl
  | some value =>
    rw [Option.map_some]
    rcases h value with he | ⟨hmap, entries, he⟩
    · rw [he]
      cases value with
      | scalar s =>
        dsimp only
        split
        · rfl
        · exact congrArg some he.symm
      | _ => exact congrArg some he.symm
    · rw [he]
      cases value with
      | scalar s => cases hmap
      | _ => exact congrArg some he.symm

theorem size_of_additional? {additional : Tree} (h : additional? fields = some additional) :
    additional.size ≤ Tree.entriesSize fields := by
  refine Fields.size_le_of_field? (k := "additionalProperties") ?_
  unfold additional? at h
  split at h
  · next hs =>
    split at h
    · cases h
    · cases h
      exact hs
  · exact h

/-- Notes that differ in the place only. -/
def AlikeNotes (notes notes' : SchemaNotes) : Prop := notes'.unplaced = notes.unplaced

theorem alikeNotes_notesOf : AlikeNotes (notesOf fields location)
    (notesOf (Fields.rewrite (keyword inner) fields) location') := by
  unfold AlikeNotes notesOf descriptionOf
  rw [field?_keyword (by decide), field?_keyword (by decide), field?_keyword (by decide)]
  rfl

theorem readRequired_keyword :
    readRequired (Fields.rewrite (keyword inner) fields) = readRequired fields := by
  unfold readRequired
  rw [field?_keyword (by decide)]

theorem typeOf?_keyword : typeOf? (Fields.rewrite (keyword inner) fields) = typeOf? fields := by
  unfold typeOf?
  rw [field?_keyword (by decide)]

theorem hasField_keyword (key : String) :
    Fields.hasField (Fields.rewrite (keyword inner) fields) key = Fields.hasField fields key :=
  Fields.hasField_rewrite

theorem isObjectNode_keyword (type : Tree) :
    isObjectNode (Fields.rewrite (keyword inner) fields) type = isObjectNode fields type := by
  unfold isObjectNode
  rw [hasField_keyword, hasField_keyword]

theorem isBinaryNode_keyword (type : Tree) :
    isBinaryNode (Fields.rewrite (keyword inner) fields) type = isBinaryNode fields type := by
  unfold isBinaryNode
  rw [field?_keyword (by decide)]

theorem alike_object (hn : AlikeNotes notes notes')
    {properties properties' : List (Scalar × Schema)} {members members' : List Schema}
    {required : List Scalar}
    (hp : List.Forall₂ (fun p p' => p'.1 = p.1 ∧ Alike p.2 p'.2) properties properties')
    (hm : List.Forall₂ Alike members members') :
    Alike (.object notes properties required members)
      (.object notes' properties' required members') := by
  rw [Alike, unplaced, unplaced, hn, unplacedProperties_congr hp, unplacedMembers_congr hm]

theorem refines_readObject (h : Follows inner read read' room)
    (hroom : Tree.entriesSize (Fields.rewrite (keyword inner) fields) ≤ room)
    (hn : AlikeNotes notes notes') {members members' : List Schema}
    (hm : List.Forall₂ Alike members members') :
    Outcome.Refines Alike (readObject read fields notes members)
      (readObject read' (Fields.rewrite (keyword inner) fields) notes' members') := by
  refine .bind (refines_readProperties h hroom) fun properties properties' _ hp => ?_
  have hobject : Outcome.Refines Alike
      (do let required ← readRequired fields
          pure (Schema.object notes properties required members))
      (do let required ← readRequired fields
          pure (Schema.object notes' properties' required members')) :=
    .bind_same fun required _ => .pure (alike_object hn hp hm)
  have hempty : properties'.isEmpty = properties.isEmpty := by
    cases hp with
    | nil => rfl
    | cons _ _ => rfl
  rw [h.rewrites.additional?, readRequired_keyword, hasField_keyword, hempty]
  cases hadditional : additional? fields with
  | none => exact hobject
  | some additional =>
    have hsize : (inner additional).size ≤ room := by
      have hrewritten : additional? (Fields.rewrite (keyword inner) fields) =
          some (inner additional) := by
        rw [h.rewrites.additional?, hadditional, Option.map_some]
      exact (size_of_additional? hrewritten).trans hroom
    dsimp only [Option.map_some]
    split
    · refine .bind (refines_readValue h hsize) fun value value' _ hv => .pure ?_
      rw [Alike, unplaced, unplaced, hn, hv]
    · exact hobject

theorem refines_readPlain (hn : AlikeNotes notes notes') (type : Tree) :
    Outcome.Refines Alike (readPlain fields notes type)
      (readPlain (Fields.rewrite (keyword inner) fields) notes' type) := by
  have hunsupported : ∀ what, Alike (.unsupported notes what) (.unsupported notes' what) := by
    intro what
    rw [Alike, unplaced, unplaced, hn]
  unfold readPlain
  split
  · rw [field?_keyword (by decide)]
    split
    · refine .ok ?_
      rw [Alike, unplaced, unplaced, hn]
    · exact .ok (hunsupported _)
  · refine .ok ?_
    rw [Alike, unplaced, unplaced, hn]
  · exact .map (.same _) fun a b hab => hab ▸ hunsupported _
  · exact .error

theorem refines_readTyped (h : Follows inner read read' room)
    (hroom : Tree.entriesSize (Fields.rewrite (keyword inner) fields) ≤ room)
    (hn : AlikeNotes notes notes') (type : Tree) :
    Outcome.Refines Alike (readTyped read fields notes type)
      (readTyped read' (Fields.rewrite (keyword inner) fields) notes' type) := by
  have hallOf : Fields.field? (Fields.rewrite (keyword inner) fields) "allOf" =
      (Fields.field? fields "allOf").map (items inner) := by
    rw [Fields.field?_rewrite]
    congr
  unfold readTyped
  cases hvalue : Fields.field? fields "allOf" with
  | some value =>
    rw [hvalue] at hallOf
    have hsize := Fields.size_le_of_field? hallOf
    rw [hallOf]
    refine .bind (refines_readMembers h (hsize.trans hroom)) fun members members' _ hm => ?_
    exact refines_readObject h hroom hn hm
  | none =>
    rw [hallOf, hvalue, field?_keyword (by decide), isObjectNode_keyword, isBinaryNode_keyword]
    dsimp only [Option.map_none]
    cases Fields.field? fields "enum" with
    | some value =>
      refine .bind_same fun values _ => .pure ?_
      rw [Alike, unplaced, unplaced, hn]
    | none =>
      dsimp only
      split
      · refine .bind (refines_readItems h hroom) fun s s' _ hs => .pure ?_
        rw [Alike, unplaced, unplaced, hn, hs]
      · split
        · exact refines_readObject h hroom hn .nil
        · split
          · refine .ok ?_
            rw [Alike, unplaced, unplaced, hn]
          · exact refines_readPlain hn type

theorem refines_readBody (h : Follows inner read read' room)
    (hroom : Tree.entriesSize (Fields.rewrite (keyword inner) fields) ≤ room)
    (hn : AlikeNotes notes notes') :
    Outcome.Refines Alike (readBody read fields notes)
      (readBody read' (Fields.rewrite (keyword inner) fields) notes') := by
  have hkeywords : Fields.hasField (Fields.rewrite (keyword inner) fields) =
      Fields.hasField fields := funext hasField_keyword
  have hunsupported : ∀ what, Alike (.unsupported notes what) (.unsupported notes' what) := by
    intro what
    rw [Alike, unplaced, unplaced, hn]
  unfold readBody
  rw [hkeywords, typeOf?_keyword]
  split
  · exact .ok (hunsupported _)
  · split
    · exact refines_readTyped h hroom hn _
    · exact .ok (hunsupported _)

/-- A scope of the older version and one of the newer with the same components. -/
structure Upgraded (scope scope' : SchemaScope) : Prop where
  start : scope.start = oldStart
  start' : scope'.start = newStart
  components : scope'.components = scope.components

theorem targetName_pointer {r rest : String} (hr : r.toList = oldStart.toList ++ rest.toList) :
    Pointer.targetName (newStart ++ rest) = Pointer.targetName r := by
  have hold : oldStart.toList = "#/definitions".toList ++ ['/'] := by decide +kernel
  have hnew : newStart.toList = "#/components/schemas".toList ++ ['/'] := by decide +kernel
  simp only [Pointer.targetName, String.toList_append, hr, hold, hnew, List.append_assoc,
    List.singleton_append, Text.afterLast_append]

theorem Upgraded.referenceTarget? {scope scope' : SchemaScope} (h : Upgraded scope scope')
    {ref : Tree} {target : String} (href : scope.referenceTarget? ref = some target) :
    scope'.referenceTarget? (pointer ref) = some target := by
  obtain ⟨r, rfl, ⟨rest, hrest⟩, rfl, hmem⟩ := referenceTarget?_eq_some href
  rw [h.start] at hrest
  have hnew : pointer (.text r) = .text (newStart ++ String.ofList rest) := by
    have hprefix : oldStart.toList.isPrefixOf r.toList = true :=
      List.isPrefixOf_iff_prefix.mpr ⟨rest, hrest⟩
    have hdrop : r.toList.drop oldStart.toList.length = rest := by
      rw [← hrest, List.drop_left]
    simp only [pointer, Tree.text?, hprefix, hdrop, if_true]
  have hname : Pointer.targetName (newStart ++ String.ofList rest) = Pointer.targetName r :=
    targetName_pointer (by rw [String.toList_ofList, hrest])
  have hstart : scope'.start.toList.isPrefixOf (newStart ++ String.ofList rest).toList = true := by
    rw [h.start', String.toList_append]
    exact List.isPrefixOf_iff_prefix.mpr ⟨_, rfl⟩
  have hfound : scope'.components.any (· == .text (Pointer.targetName r)) = true := by
    rw [h.components]
    exact List.any_eq_true.mpr ⟨_, hmem, BEq.rfl⟩
  rw [hnew]
  simp only [SchemaScope.referenceTarget?, Tree.text?, hname, hstart, hfound, Bool.and_true,
    if_true]

theorem refines_readNode {scope scope' : SchemaScope} (hscope : Upgraded scope scope')
    (h : Follows inner read read' room)
    (hroom : Tree.entriesSize (Fields.rewrite (keyword inner) fields) ≤ room) {t : Tree}
    (hfields : t.fields? = some fields) :
    Outcome.Refines Alike (scope.readNode read t location)
      (scope'.readNode read' (.map (Fields.rewrite (keyword inner) fields)) location') := by
  have href : Fields.field? (Fields.rewrite (keyword inner) fields) "$ref" =
      (Fields.field? fields "$ref").map pointer := by
    rw [Fields.field?_rewrite]
    congr
  have hfields' : (Tree.map (Fields.rewrite (keyword inner) fields)).fields? =
      some (Fields.rewrite (keyword inner) fields) := rfl
  unfold readNode
  rw [hfields, hfields']
  dsimp only
  rw [href]
  cases Fields.field? fields "$ref" with
  | none => exact refines_readBody h hroom alikeNotes_notesOf
  | some ref =>
    dsimp only [Option.map_some]
    cases htarget : scope.referenceTarget? ref with
    | none => exact .error
    | some target =>
      rw [hscope.referenceTarget? htarget]
      exact .ok rfl

/-- The reading of a rewritten node follows that of the node when it may go as deep. The depth
bounds the older reading: a rewritten node that holds itself is larger than the loop that it comes
from. -/
theorem refines_readWithin {scope scope' : SchemaScope} (hscope : Upgraded scope scope')
    {depth bound room : ℕ} (hdepth : depth ≤ bound) {t : Tree}
    (hroom : (schemaWithin bound t).size ≤ room) :
    Outcome.Refines Alike (scope.readWithin depth t location)
      (scope'.readWithin room (schemaWithin bound t) location') := by
  induction depth generalizing bound room t location location' with
  | zero => exact .error
  | succ depth ih =>
    obtain ⟨bound, rfl⟩ : ∃ b, bound = b + 1 := ⟨bound - 1, by omega⟩
    have hpos := Tree.size_pos (schemaWithin (bound + 1) t)
    obtain ⟨room, rfl⟩ : ∃ r, room = r + 1 := ⟨room - 1, by omega⟩
    rw [readWithin, readWithin]
    cases hfields : t.fields? with
    | none =>
      unfold readNode
      rw [hfields]
      exact .error
    | some fields =>
      have hnode : schemaWithin (bound + 1) t =
          .map (Fields.rewrite (keyword (schemaWithin bound)) fields) :=
        Tree.mapFields_of_fields? hfields
      rw [hnode, Tree.size] at hroom
      rw [hnode]
      have hfollows : Follows (schemaWithin bound) (scope.readWithin depth)
          (scope'.readWithin room) room :=
        ⟨rewrites_schemaWithin bound, fun t ht _ _ => ih (by omega) ht⟩
      exact refines_readNode hscope hfollows (by omega) hfields

theorem refines_read {scope scope' : SchemaScope} (hscope : Upgraded scope scope') (t : Tree)
    (location location' : String) :
    Outcome.Refines Alike (scope.read t location) (scope'.read (schema t) location') :=
  refines_readWithin hscope le_rfl le_rfl

end SchemaScope

end ApiContract
