import ApiContract.Proofs.Contract.Addresses
import ApiContract.Proofs.Contract.Following

/-! # What a pointer is answered with

A pointer leads to the node to which its tokens lead step by step, when each is read as a key or
as an index. Resolving a pointer finds that node exactly; otherwise the pointer leads nowhere, or
goes into a list by digits of which no number is read. Following a reference from any node ends
over such a pointer too, and only over that, or over a reference that is no text, if it comes
neither to a node nor to an unresolved reference.
-/
namespace ApiContract

namespace Pointer

variable {document node next : Tree} {token pointer : String} {tokens : List String}

/-- A token is read as the key with its text, or as the item at the number that it writes. -/
inductive Reads (token : String) : Move → Prop
  | key : Reads token (.key token)
  | item {index : ℕ} (read : Text.numeral? token.toList = some index) : Reads token (.item index)

/-- The pointer leads to the node by the steps that its tokens are read as. -/
def Reaches (document : Tree) (pointer : String) (node : Tree) : Prop :=
  ∃ tokens moves, tokens? pointer = some tokens ∧ List.Forall₂ Reads tokens moves ∧
    descend moves document = some node

theorem isIndex_of_numeral? {index : ℕ} (h : Text.numeral? token.toList = some index) :
    isIndex token = true := by
  obtain ⟨hne, -, -⟩ := Text.numeral?_eq_some.mp h
  have hdigits : ∀ c ∈ token.toList, Text.isDigitLike c = true := fun c hc =>
    Text.isDigitLike_of_isDecimal (Text.isDecimal_of_numeral? h c hc)
  simpa [isIndex, hne] using hdigits

theorem child_eq_ok_iff :
    child token node = .ok next ↔ ∃ move, Reads token move ∧ move.part? node = some next := by
  constructor
  · intro h
    unfold child at h
    split at h
    · next items hitems =>
      split at h
      · obtain ⟨i, hread, h⟩ := Outcome.bind_eq_ok.mp h
        have hitem : (Move.item i).part? node = some next := by
          rw [Move.part?, hitems, Option.bind_some]
          exact Outcome.need_eq_ok.mp h
        exact ⟨.item i, .item (Outcome.need_eq_ok.mp hread), hitem⟩
      · cases h
    · exact ⟨.key token, .key, Outcome.need_eq_ok.mp h⟩
  · rintro ⟨move, hread, hpart⟩
    cases hread with
    | key =>
      obtain ⟨fields, hfields, hvalue⟩ := Option.bind_eq_some_iff.mp hpart
      rw [child_of_fields hfields, hvalue]
      rfl
    | item hread =>
      obtain ⟨items, hitems, hitem⟩ := Option.bind_eq_some_iff.mp hpart
      simp only [child, hitems, isIndex_of_numeral? hread, if_true, index?, hread]
      exact Outcome.need_eq_ok.mpr hitem

/-- The induction is on the tokens: each step of the way is one token read. -/
theorem follow_eq_ok_iff :
    follow tokens node = .ok next ↔
      ∃ moves, List.Forall₂ Reads tokens moves ∧ descend moves node = some next := by
  induction tokens generalizing node with
  | nil => simp [follow, descend]
  | cons token rest ih =>
    constructor
    · intro h
      obtain ⟨mid, hmid, h⟩ := Outcome.bind_eq_ok.mp h
      obtain ⟨move, hread, hpart⟩ := child_eq_ok_iff.mp hmid
      obtain ⟨moves, hreads, hdescend⟩ := ih.mp h
      exact ⟨move :: moves, .cons hread hreads, Option.bind_eq_some_iff.mpr ⟨mid, hpart, hdescend⟩⟩
    · rintro ⟨moves, hreads, hdescend⟩
      cases hreads with
      | cons hread hreads =>
        obtain ⟨mid, hpart, hdescend⟩ := Option.bind_eq_some_iff.mp hdescend
        exact Outcome.bind_eq_ok.mpr
          ⟨mid, child_eq_ok_iff.mpr ⟨_, hread, hpart⟩, ih.mpr ⟨_, hreads, hdescend⟩⟩

/-- A pointer is resolved to the node that it leads to. -/
theorem resolve_eq_ok_iff :
    resolve document pointer = .ok node ↔ Reaches document pointer node := by
  constructor
  · intro h
    obtain ⟨tokens, htokens, h⟩ := Outcome.bind_eq_ok.mp h
    obtain ⟨moves, hreads, hdescend⟩ := follow_eq_ok_iff.mp h
    exact ⟨tokens, moves, Outcome.need_eq_ok.mp htokens, hreads, hdescend⟩
  · rintro ⟨tokens, moves, htokens, hreads, hdescend⟩
    exact Outcome.bind_eq_ok.mpr ⟨tokens, Outcome.need_eq_ok.mpr htokens,
      follow_eq_ok_iff.mpr ⟨moves, hreads, hdescend⟩⟩

theorem resolve_cases (document : Tree) (pointer : String) :
    (∃ node, resolve document pointer = .ok node) ∨ resolve document pointer = .error .missing ∨
      resolve document pointer = .error .notNumber := by
  cases h : resolve document pointer with
  | ok node => exact .inl ⟨node, rfl⟩
  | error e =>
    rcases resolve_eq_error h with rfl | ⟨rfl, -⟩
    · exact .inr (.inl rfl)
    · exact .inr (.inr rfl)

end Pointer

namespace ContractReader
open Pointer

/-- A pointer is resolved to the node that it leads to or leads nowhere, and only one that goes into
a list by digits of which no number is read fails over the number. Following from a node gives the
node to which the references lead, or fails over one that is not resolved; it fails over the
number exactly if a pointer does on the way, and over the type exactly if a reference is no text. -/
theorem deref_answers (document : Tree) :
    (∀ pointer,
      (∀ node, resolve document pointer = .ok node ↔ Reaches document pointer node) ∧
      ((∃ node, resolve document pointer = .ok node) ∨
        resolve document pointer = .error .missing ∨
        resolve document pointer = .error .notNumber) ∧
      (resolve document pointer = .error .notNumber ↔ Unreadable document pointer)) ∧
    ∀ node location,
      (∀ target, deref document node location = .ok target ↔
        referenceOf? target = none ∧ ∃ texts, Leads document node texts target) ∧
      ((∃ target, deref document node location = .ok target) ∨
        Unresolved document node location ∨
        deref document node location = .error .notNumber ∨
        deref document node location = .error .illTyped) ∧
      (deref document node location = .error .notNumber ↔
        Meets document node (Unreadable document)) ∧
      (deref document node location = .error .illTyped ↔ MeetsOther document node) :=
  ⟨fun pointer => ⟨fun _ => resolve_eq_ok_iff, resolve_cases document pointer,
      resolve_eq_notNumber_iff⟩,
    fun node location => ⟨deref_eq_ok_iff document node location,
      deref_cases document node location, deref_eq_notNumber_iff document node location,
      deref_eq_illTyped_iff document node location⟩⟩

/-- A document whose path item is a reference into an empty list, by a digit without a place
value. -/
def superscriptDocument : Tree := .map [
  (.text "openapi", .text "3.0.0"),
  (.text "paths", .map [(.text "/a", .map [(.text "$ref", .text "#/lists/²")])]),
  (.text "lists", .list [])]

/-- The list has no items, and yet the pointer is not found to lead nowhere: it fails over the
number, and so does the document, without a fault of the contract. -/
theorem resolve_superscript_index :
    (∀ node, ¬Reaches superscriptDocument "#/lists/²" node) ∧
      resolve superscriptDocument "#/lists/²" = .error .notNumber ∧
      deref superscriptDocument (.map [(.text "$ref", .text "#/lists/²")]) "#/paths/~1a" =
        .error .notNumber ∧
      Contract.ofTree superscriptDocument = .error .notNumber := by
  have hresolve : resolve superscriptDocument "#/lists/²" = .error .notNumber := by rfl
  refine ⟨fun node h => ?_, hresolve, by rfl, by rfl⟩
  cases hresolve.symm.trans (resolve_eq_ok_iff.mpr h)

end ContractReader

end ApiContract
