import Mathlib.Data.List.Nodup
import ApiContract.Proofs.Contract.Pointers

/-! # Following references

A node that is a reference leads to the node that its pointer reaches, and so on. Each text is
followed at most once, and a document has fewer references than nodes, so following comes to an
end: at a node that is no reference, at a pointer that leads nowhere, or at a text that was
followed before. A chain that ends by itself repeats no text, so that none is refused over one.
The other ends are a pointer that is not read, and a reference that is no text.
-/
namespace ApiContract.ContractReader

variable {document node next mid last : Tree} {location text : String} {texts more : List String}

/-- Following the references with these texts leads from the first node to the last. -/
inductive Leads (document : Tree) : Tree → List String → Tree → Prop
  | here {node : Tree} : Leads document node [] node
  | through {node next last : Tree} {text : String} {texts : List String}
      (refers : referenceOf? node = some (.text text))
      (resolved : Pointer.resolve document text = .ok next)
      (onward : Leads document next texts last) : Leads document node (text :: texts) last

/-- A node from which no reference leads on. -/
def Dead (document last : Tree) : Prop :=
  ∀ text next, referenceOf? last = some (.text text) → Pointer.resolve document text ≠ .ok next

theorem dead_of_plain (h : referenceOf? last = none) : Dead document last := by
  intro text next hrefers
  rw [h] at hrefers
  cases hrefers

theorem dead_of_error {e : Failure} (hrefers : referenceOf? last = some (.text text))
    (h : Pointer.resolve document text = .error e) : Dead document last := by
  intro other next hother hnext
  cases hrefers.symm.trans hother
  cases h.symm.trans hnext

theorem dead_of_other {r : Tree} (hrefers : referenceOf? last = some r) (h : r.text? = none) :
    Dead document last := by
  intro text next htext
  cases hrefers.symm.trans htext
  cases h

namespace Leads

theorem append (h : Leads document node texts mid) (h' : Leads document mid more last) :
    Leads document node (texts ++ more) last := by
  induction h with
  | here => exact h'
  | through refers resolved _ ih => exact .through refers resolved (ih h')

theorem eq_of_dead (h : Leads document node texts last) (dead : Dead document node) :
    texts = [] ∧ last = node := by
  cases h with
  | here => exact ⟨rfl, rfl⟩
  | through refers resolved _ => exact absurd resolved (dead _ _ refers)

/-- A chain goes on until it is dead: it has every other chain from its node for a beginning. -/
theorem extends_of_dead {other : Tree} (h : Leads document node texts last)
    (h' : Leads document node more other) (dead : Dead document last) :
    ∃ rest, texts = more ++ rest ∧ Leads document other rest last := by
  induction h' generalizing texts with
  | here => exact ⟨texts, rfl, h⟩
  | through refers resolved _ ih =>
    cases h with
    | here => exact absurd resolved (dead _ _ refers)
    | through refers' resolved' onward =>
      cases refers.symm.trans refers'
      cases resolved.symm.trans resolved'
      obtain ⟨rest, rfl, hrest⟩ := ih onward
      exact ⟨rest, rfl, hrest⟩

theorem unique_of_dead {other : Tree} (h : Leads document node texts last)
    (h' : Leads document node more other) (dead : Dead document last)
    (dead' : Dead document other) : texts = more ∧ last = other := by
  obtain ⟨rest, rfl, hrest⟩ := h.extends_of_dead h' dead
  obtain ⟨rfl, rfl⟩ := hrest.eq_of_dead dead'
  exact ⟨List.append_nil _, rfl⟩

/-- Where a chain follows a text there is a node that refers to it. -/
theorem split_of_mem (h : Leads document node texts last) (hmem : text ∈ texts) :
    ∃ before after mid next, texts = before ++ text :: after ∧ Leads document node before mid ∧
      referenceOf? mid = some (.text text) ∧ Pointer.resolve document text = .ok next ∧
      Leads document next after last := by
  induction h with
  | here => cases hmem
  | @through node next last first texts refers resolved onward ih =>
    rcases List.mem_cons.mp hmem with rfl | hmem
    · exact ⟨[], texts, node, next, rfl, .here, refers, resolved, onward⟩
    · obtain ⟨before, after, mid, target, rfl, hbefore, hmid, htarget, hafter⟩ := ih hmem
      exact ⟨first :: before, after, mid, target, rfl, .through refers resolved hbefore, hmid,
        htarget, hafter⟩

/-- No way back leads from a node from which a chain ends: the chain would be a beginning of
itself again and again. -/
theorem acyclic (h : Leads document node texts last) (dead : Dead document last)
    (cycle : Leads document node more node) : more = [] := by
  induction hn : texts.length using Nat.strong_induction_on generalizing texts with
  | _ n ih =>
    subst hn
    obtain ⟨rest, rfl, hrest⟩ := h.extends_of_dead cycle dead
    by_contra hne
    have hshorter : rest.length < (more ++ rest).length := by
      have := List.length_pos_iff.mpr hne
      rw [List.length_append]
      omega
    exact hne (ih _ hshorter hrest rfl)

/-- A chain that ends follows no text twice. -/
theorem nodup (h : Leads document node texts last) (dead : Dead document last) : texts.Nodup := by
  induction h with
  | here => exact List.nodup_nil
  | @through node next last text texts refers resolved onward ih =>
    refine List.nodup_cons.mpr ⟨fun hmem => ?_, ih dead⟩
    obtain ⟨before, after, mid, target, rfl, hbefore, hmid, htarget, -⟩ :=
      onward.split_of_mem hmem
    cases resolved.symm.trans htarget
    have hcycle := hbefore.append (.through hmid resolved .here)
    exact absurd (onward.acyclic dead hcycle) (by simp)

end Leads

/-- What following comes to at the last node of a chain, with these texts behind it. -/
inductive Stops (document : Tree) (location : String) (seen : List String) (last : Tree) :
    Outcome Tree → Prop
  | plain (plain : referenceOf? last = none) : Stops document location seen last (.ok last)
  | circular {text : String} (refers : referenceOf? last = some (.text text))
      (again : text ∈ seen) :
      Stops document location seen last (.error (.contract (.circularReference text) location))
  | dangling {text : String} (refers : referenceOf? last = some (.text text))
      (nowhere : Pointer.resolve document text = .error .missing) :
      Stops document location seen last (.error (.contract (.danglingReference text) location))
  | unread {text : String} (refers : referenceOf? last = some (.text text))
      (unread : Pointer.Unreadable document text) :
      Stops document location seen last (.error .notNumber)
  | other {r : Tree} (refers : referenceOf? last = some r) (other : r.text? = none) :
      Stops document location seen last (.error .illTyped)

theorem Stops.mono {seen seen' : List String} {outcome : Outcome Tree} (hsub : seen ⊆ seen')
    (h : Stops document location seen last outcome) :
    Stops document location seen' last outcome := by
  cases h with
  | plain h => exact .plain h
  | circular refers again => exact .circular refers (hsub again)
  | dangling refers nowhere => exact .dangling refers nowhere
  | unread refers unread => exact .unread refers unread
  | other refers other => exact .other refers other

/-- Nothing leads on from a node where following stops, unless the text was followed before. -/
theorem Stops.dead_or_again {seen : List String} {outcome : Outcome Tree}
    (h : Stops document location seen last outcome) :
    Dead document last ∨ ∃ text ∈ seen, referenceOf? last = some (.text text) := by
  cases h with
  | plain h => exact .inl (dead_of_plain h)
  | circular refers again => exact .inr ⟨_, again, refers⟩
  | dangling refers nowhere => exact .inl (dead_of_error refers nowhere)
  | unread refers unread => exact .inl (dead_of_error refers unread.resolve)
  | other refers other => exact .inl (dead_of_other refers other)

/-- A node that, as a reference to a text, is one to one of these texts. -/
def RefersWithin (known : List String) (node : Tree) : Prop :=
  ∀ s, referenceOf? node = some (.text s) → s ∈ known

/-- Following ends, as long as it is given more steps than there are texts left to follow. -/
theorem exists_stops {known : List String}
    (reached : ∀ pointer next, Pointer.resolve document pointer = .ok next →
      RefersWithin known next) (fuel : ℕ) :
    ∀ seen node, seen.Nodup → seen ⊆ known → known.length < fuel + seen.length →
      RefersWithin known node → ∃ texts last, Leads document node texts last ∧
        Stops document location (texts ++ seen) last
          (followWithin document location fuel seen node) := by
  induction fuel with
  | zero =>
    intro seen node hnodup hsub hfuel
    have := hnodup.length_le_of_subset hsub
    omega
  | succ fuel ih =>
    intro seen node hnodup hsub hfuel hnode
    unfold followWithin
    cases hrefers : referenceOf? node with
    | none => exact ⟨[], node, .here, .plain hrefers⟩
    | some r =>
      dsimp only
      cases htext : r.text? with
      | none => exact ⟨[], node, .here, .other hrefers htext⟩
      | some text =>
        obtain rfl := Tree.text?_eq_some.mp htext
        dsimp only
        split
        · next hagain => exact ⟨[], node, .here, .circular hrefers hagain⟩
        · next hnew =>
          cases hresolve : Pointer.resolve document text with
          | ok next =>
            have hlength : known.length < fuel + (text :: seen).length := by
              rw [List.length_cons]
              omega
            obtain ⟨texts, last, hleads, hstops⟩ := ih (text :: seen) next
              (List.nodup_cons.mpr ⟨hnew, hnodup⟩)
              (List.cons_subset.mpr ⟨hnode text hrefers, hsub⟩) hlength
              (reached text next hresolve)
            exact ⟨text :: texts, last, .through hrefers hresolve hleads,
              hstops.mono List.perm_middle.subset⟩
          | error e =>
            rcases Pointer.resolve_eq_error hresolve with rfl | ⟨rfl, hunread⟩
            · exact ⟨[], node, .here, .dangling hrefers hresolve⟩
            · exact ⟨[], node, .here, .unread hrefers hunread⟩

theorem of_referenceOf? {Q : Tree → Prop} (hQ : Tree.Lasting Q) {r : Tree}
    (h : node.AllReferences Q) (hrefers : referenceOf? node = some r) : Q r := by
  obtain ⟨fields, hfields, hvalue⟩ := Option.bind_eq_some_iff.mp hrefers
  exact (h.field hQ hfields hvalue).2 rfl

/-- A reference is followed like any other node. -/
theorem deref_eq (document node : Tree) (location : String) :
    deref document node location = followWithin document location (document.size + 1) [] node := by
  unfold deref
  cases hrefers : referenceOf? node with
  | none => simp [followWithin, hrefers]
  | some r => rfl

/-- The texts that can be followed from a node, which need not stand in the document. -/
def followable (document node : Tree) : List String :=
  ((referenceOf? node).bind Tree.text?).toList ++ document.references.filterMap Tree.text?

theorem length_followable (document node : Tree) :
    (followable document node).length ≤ document.size := by
  have hdocument := document.length_references
  have hfilter := List.length_filterMap_le Tree.text? document.references
  have hown : ((referenceOf? node).bind Tree.text?).toList.length ≤ 1 := by
    cases (referenceOf? node).bind Tree.text? <;> simp
  rw [followable, List.length_append]
  omega

theorem allReferences_followable (document node : Tree) :
    document.AllReferences fun r => ∀ s, r = .text s → s ∈ followable document node := by
  rintro _ hr s rfl
  exact List.mem_append_right _ (List.mem_filterMap.mpr ⟨_, hr, rfl⟩)

/-- From any node following ends at the last node of a chain. -/
theorem stops_of_deref (document node : Tree) (location : String) :
    ∃ texts last, Leads document node texts last ∧
      Stops document location texts last (deref document node location) := by
  have hreached : ∀ pointer next, Pointer.resolve document pointer = .ok next →
      RefersWithin (followable document node) next := by
    intro pointer next hresolve s hs
    have hlasting := Tree.lasting_of_text (· ∈ followable document node)
    exact of_referenceOf? hlasting
      (Pointer.allReferences_resolve hlasting (allReferences_followable document node) hresolve)
      hs s rfl
  have hstart : RefersWithin (followable document node) node := fun s hs =>
    List.mem_append_left _ (by simp [hs, Tree.text?])
  have hsteps : (followable document node).length < document.size + 1 + ([] : List String).length :=
    Nat.lt_succ_of_le (length_followable document node)
  obtain ⟨texts, last, hleads, hstops⟩ := exists_stops hreached _ [] node List.nodup_nil
    (List.nil_subset _) hsteps hstart
  rw [← deref_eq, List.append_nil] at hstops
  exact ⟨texts, last, hleads, hstops⟩

/-- A chain that comes back to one of its texts. -/
def ComesBack (document node : Tree) : Prop :=
  ∃ texts last text, Leads document node texts last ∧
    referenceOf? last = some (.text text) ∧ text ∈ texts

/-- A chain that comes back does not end. -/
theorem ComesBack.not_dead (h : ComesBack document node) (hleads : Leads document node texts last) :
    ¬Dead document last := by
  intro dead
  obtain ⟨round, other, text, hround, hrefers, hagain⟩ := h
  obtain ⟨before, after, mid, next, -, -, -, hnext, -⟩ := hround.split_of_mem hagain
  obtain ⟨rest, rfl, -⟩ :=
    hleads.extends_of_dead (hround.append (.through hrefers hnext .here)) dead
  have hnodup := (hleads.nodup dead).of_append_left
  rw [List.nodup_append] at hnodup
  exact hnodup.2.2 text hagain text (List.mem_singleton_self text) rfl

/-- Where a chain ends, following ends too. -/
theorem stops_of_dead (location : String) (hleads : Leads document node texts last)
    (dead : Dead document last) :
    Stops document location texts last (deref document node location) := by
  obtain ⟨more, other, hmore, hstops⟩ := stops_of_deref document node location
  rcases hstops.dead_or_again with hdead | ⟨text, hagain, hrefers⟩
  · obtain ⟨rfl, rfl⟩ := hleads.unique_of_dead hmore dead hdead
    exact hstops
  · have hround : ComesBack document node := ⟨more, other, text, hmore, hrefers, hagain⟩
    exact absurd dead (hround.not_dead hleads)

/-- A reference of a chain has a text of this kind. -/
def Meets (document node : Tree) (kind : String → Prop) : Prop :=
  ∃ texts last text, Leads document node texts last ∧
    referenceOf? last = some (.text text) ∧ kind text

/-- Following fails over a reference at the location. -/
def Unresolved (document node : Tree) (location : String) : Prop :=
  ∃ fault, deref document node location = .error (.contract fault location) ∧
    fault.kind = "UnresolvedReference"

/-- A chain comes to a reference that is no text. -/
def MeetsOther (document node : Tree) : Prop :=
  ∃ texts last r, Leads document node texts last ∧ referenceOf? last = some r ∧ r.text? = none

section

variable (document node : Tree) (location : String)

theorem deref_eq_ok_iff (target : Tree) : deref document node location = .ok target ↔
    referenceOf? target = none ∧ ∃ texts, Leads document node texts target := by
  constructor
  · intro h
    obtain ⟨texts, last, hleads, hstops⟩ := stops_of_deref document node location
    rw [h] at hstops
    cases hstops with
    | plain hplain => exact ⟨hplain, texts, hleads⟩
  · rintro ⟨hplain, texts, hleads⟩
    have hstops := stops_of_dead location hleads (dead_of_plain hplain)
    generalize deref document node location = outcome at hstops ⊢
    cases hstops with
    | plain _ => rfl
    | circular refers _ => cases hplain.symm.trans refers
    | dangling refers _ => cases hplain.symm.trans refers
    | unread refers _ => cases hplain.symm.trans refers
    | other refers _ => cases hplain.symm.trans refers

theorem unresolved_iff : Unresolved document node location ↔
    ComesBack document node ∨
      Meets document node fun text => Pointer.resolve document text = .error .missing := by
  constructor
  · rintro ⟨fault, h, -⟩
    obtain ⟨texts, last, hleads, hstops⟩ := stops_of_deref document node location
    rw [h] at hstops
    cases hstops with
    | circular refers again => exact .inl ⟨texts, last, _, hleads, refers, again⟩
    | dangling refers nowhere => exact .inr ⟨texts, last, _, hleads, refers, nowhere⟩
  · rintro (hround | ⟨texts, last, text, hleads, hrefers, hnowhere⟩)
    · obtain ⟨texts, last, hleads, hstops⟩ := stops_of_deref document node location
      have hgoes := hround.not_dead hleads
      unfold Unresolved
      generalize deref document node location = outcome at hstops ⊢
      cases hstops with
      | plain h => exact absurd (dead_of_plain h) hgoes
      | circular _ _ => exact ⟨_, rfl, rfl⟩
      | dangling refers nowhere => exact absurd (dead_of_error refers nowhere) hgoes
      | unread refers hunread => exact absurd (dead_of_error refers hunread.resolve) hgoes
      | other refers hother => exact absurd (dead_of_other refers hother) hgoes
    · have hstops := stops_of_dead location hleads (dead_of_error hrefers hnowhere)
      unfold Unresolved
      generalize deref document node location = outcome at hstops ⊢
      cases hstops with
      | plain h => cases h.symm.trans hrefers
      | circular _ _ => exact ⟨_, rfl, rfl⟩
      | dangling _ _ => exact ⟨_, rfl, rfl⟩
      | unread refers hunread =>
        cases refers.symm.trans hrefers
        cases hunread.resolve.symm.trans hnowhere
      | other refers hother =>
        cases refers.symm.trans hrefers
        cases hother

theorem deref_eq_notNumber_iff : deref document node location = .error .notNumber ↔
    Meets document node (Pointer.Unreadable document) := by
  constructor
  · intro h
    obtain ⟨texts, last, hleads, hstops⟩ := stops_of_deref document node location
    rw [h] at hstops
    cases hstops with
    | unread refers hunread => exact ⟨texts, last, _, hleads, refers, hunread⟩
  · rintro ⟨texts, last, text, hleads, hrefers, hunread⟩
    have dead := dead_of_error hrefers hunread.resolve
    have hstops := stops_of_dead location hleads dead
    generalize deref document node location = outcome at hstops ⊢
    cases hstops with
    | plain h => cases h.symm.trans hrefers
    | circular refers again =>
      have hround : ComesBack document node := ⟨texts, last, _, hleads, refers, again⟩
      exact absurd dead (hround.not_dead hleads)
    | dangling refers nowhere =>
      cases refers.symm.trans hrefers
      cases hunread.resolve.symm.trans nowhere
    | unread _ _ => rfl
    | other refers hother =>
      cases refers.symm.trans hrefers
      cases hother

theorem deref_eq_illTyped_iff :
    deref document node location = .error .illTyped ↔ MeetsOther document node := by
  constructor
  · intro h
    obtain ⟨texts, last, hleads, hstops⟩ := stops_of_deref document node location
    rw [h] at hstops
    cases hstops with
    | other refers hother => exact ⟨texts, last, _, hleads, refers, hother⟩
  · rintro ⟨texts, last, r, hleads, hrefers, hother⟩
    have hstops := stops_of_dead location hleads (dead_of_other hrefers hother)
    have hnone : ∀ text, referenceOf? last ≠ some (.text text) := by
      intro text htext
      cases hrefers.symm.trans htext
      cases hother
    generalize deref document node location = outcome at hstops ⊢
    cases hstops with
    | plain h => cases h.symm.trans hrefers
    | circular refers _ => exact absurd refers (hnone _)
    | dangling refers _ => exact absurd refers (hnone _)
    | unread refers _ => exact absurd refers (hnone _)
    | other _ _ => rfl

/-- Following comes to one of four ends. -/
theorem deref_cases : (∃ target, deref document node location = .ok target) ∨
    Unresolved document node location ∨ deref document node location = .error .notNumber ∨
    deref document node location = .error .illTyped := by
  obtain ⟨texts, last, -, hstops⟩ := stops_of_deref document node location
  unfold Unresolved
  generalize deref document node location = outcome at hstops ⊢
  cases hstops with
  | plain _ => exact .inl ⟨last, rfl⟩
  | circular _ _ => exact .inr (.inl ⟨_, rfl, rfl⟩)
  | dangling _ _ => exact .inr (.inl ⟨_, rfl, rfl⟩)
  | unread _ _ => exact .inr (.inr (.inl rfl))
  | other _ _ => exact .inr (.inr (.inr rfl))

end

/-- A node whose own reference, if it is one, is a text in plain characters. -/
def RefersPlainly (node : Tree) : Prop :=
  ∀ r, referenceOf? node = some r → ∃ s, r = .text s ∧ Text.IsAscii s.toList

/-- A document in which all references are texts in plain characters. -/
abbrev PlainReferences (document : Tree) : Prop :=
  document.Referring fun s => Text.IsAscii s.toList

theorem Leads.refersPlainly (plain : PlainReferences document)
    (h : Leads document node texts last) (start : RefersPlainly node) : RefersPlainly last := by
  have hlasting := Tree.lasting_text fun s => Text.IsAscii s.toList
  induction h with
  | here => exact start
  | through _ resolved _ ih =>
    exact ih fun r hr =>
      of_referenceOf? hlasting (Pointer.allReferences_resolve hlasting plain resolved) hr

/-- In plain characters a pointer that is not read is one with an index that is too long. -/
theorem meets_unreadable_iff (plain : PlainReferences document) (start : RefersPlainly node) :
    Meets document node (Pointer.Unreadable document) ↔
      Meets document node (Pointer.Overlong document) := by
  constructor
  · rintro ⟨texts, last, text, hleads, hrefers, hunread⟩
    obtain ⟨_, htext, hascii⟩ := hleads.refersPlainly plain start _ hrefers
    cases htext
    exact ⟨texts, last, text, hleads, hrefers, hunread.overlong hascii⟩
  · rintro ⟨texts, last, text, hleads, hrefers, hlong⟩
    exact ⟨texts, last, text, hleads, hrefers, hlong.unreadable⟩

theorem not_meetsOther (plain : PlainReferences document) (start : RefersPlainly node) :
    ¬MeetsOther document node := by
  rintro ⟨texts, last, r, hleads, hrefers, hother⟩
  obtain ⟨text, rfl, -⟩ := hleads.refersPlainly plain start r hrefers
  cases hother

/-- Following ends from every node. It gives the node that is no reference and to which the
chain leads, if there is one; it fails over an unresolved reference exactly when the chain meets
a pointer that leads nowhere or comes back to a text that was followed; and it fails over a
number exactly when the chain meets a pointer that goes into a list by an index too long to be
read. -/
theorem deref_follows (plain : PlainReferences document) (start : RefersPlainly node)
    (location : String) :
    ((∃ target, deref document node location = .ok target) ∨
      Unresolved document node location ∨ deref document node location = .error .notNumber) ∧
    (∀ target, deref document node location = .ok target ↔
      referenceOf? target = none ∧ ∃ texts, Leads document node texts target) ∧
    (Unresolved document node location ↔
      ComesBack document node ∨
        Meets document node fun text => Pointer.resolve document text = .error .missing) ∧
    (deref document node location = .error .notNumber ↔
      Meets document node (Pointer.Overlong document)) := by
  refine ⟨?_, deref_eq_ok_iff document node location, unresolved_iff document node location,
    (deref_eq_notNumber_iff document node location).trans (meets_unreadable_iff plain start)⟩
  rcases deref_cases document node location with h | h | h | h
  · exact .inl h
  · exact .inr (.inl h)
  · exact .inr (.inr h)
  · exact absurd ((deref_eq_illTyped_iff document node location).mp h)
      (not_meetsOther plain start)

/-- A document with a chain that ends, one that leads nowhere and one that comes back. -/
def chainsDocument : Tree :=
  let reference (text : String) : Tree := .map [(.text "$ref", .text text)]
  .map [
    (.text "first", reference "#/second"), (.text "second", reference "#/nodes/0"),
    (.text "nodes", .list [.map [(.text "name", .text "limit")]]),
    (.text "lost", reference "#/nodes/1"),
    (.text "left", reference "#/right"), (.text "right", reference "#/left")]

theorem plainReferences_chainsDocument : PlainReferences chainsDocument := by
  simp [PlainReferences, Tree.Referring, chainsDocument, Tree.references, Tree.entryReferences,
    Tree.itemReferences, Text.IsAscii]

theorem deref_follows_chains :
    PlainReferences chainsDocument ∧
      (∃ texts, Leads chainsDocument (.map [(.text "$ref", .text "#/first")]) texts
        (.map [(.text "name", .text "limit")])) ∧
      Unresolved chainsDocument (.map [(.text "$ref", .text "#/lost")]) "#/start" ∧
      Unresolved chainsDocument (.map [(.text "$ref", .text "#/left")]) "#/start" := by
  have start : ∀ text : String, Text.IsAscii text.toList →
      RefersPlainly (.map [(.text "$ref", .text text)]) := by
    intro text htext r hr
    cases hr
    exact ⟨text, rfl, htext⟩
  have first := deref_follows plainReferences_chainsDocument
    (start "#/first" (by simp [Text.IsAscii])) "#/start"
  have lost := deref_follows plainReferences_chainsDocument
    (start "#/lost" (by simp [Text.IsAscii])) "#/start"
  have left := deref_follows plainReferences_chainsDocument
    (start "#/left" (by simp [Text.IsAscii])) "#/start"
  refine ⟨plainReferences_chainsDocument, ?_, ?_, ?_⟩
  · exact ((first.2.1 _).mp rfl).2
  · exact lost.2.2.1.mpr (.inr ⟨["#/lost"], _, "#/nodes/1", .through rfl rfl .here, rfl, rfl⟩)
  · exact left.2.2.1.mpr (.inl ⟨["#/left", "#/right"], _, "#/left",
      .through rfl rfl (.through rfl rfl .here), rfl, by simp⟩)

def listsDocument : Tree := .map [(.text "lists", .list [])]

/-- A pointer to an item of the lists, by an index of nines. -/
def ninesPointer (n : ℕ) : String :=
  String.ofList ('#' :: '/' :: ("lists".toList ++ '/' :: List.replicate n '9'))

theorem isAscii_ninesPointer (n : ℕ) : Text.IsAscii (ninesPointer n).toList := by
  unfold ninesPointer
  have hstart : Text.IsAscii "lists".toList := by simp [Text.IsAscii]
  have hnines : Text.IsAscii (List.replicate n '9') := by
    intro c hc
    rw [List.eq_of_mem_replicate hc]
    decide
  simp only [String.toList_ofList, Text.IsAscii, List.forall_mem_cons, List.forall_mem_append]
  exact ⟨by decide, by decide, hstart, by decide, hnines⟩

theorem overlong_ninesPointer {n : ℕ} (hn : Text.numeralLimit < n) :
    Pointer.Overlong listsDocument (ninesPointer n) := by
  have hname : '/' ∉ "lists".toList ∧ '~' ∉ "lists".toList := by decide
  have htokens : Pointer.tokens? (ninesPointer n) =
      some ["lists", String.ofList (List.replicate n '9')] :=
    Pointer.tokens?_of_not_mem hname (by simp)
  have hnine : Text.isDigitLike '9' = true := by decide
  have hindex : Pointer.isIndex (String.ofList (List.replicate n '9')) = true := by
    simp [Pointer.isIndex, hnine, Nat.ne_zero_of_lt hn]
  exact ⟨["lists"], _, [], .list [], [], htokens, rfl, rfl, hindex, by simpa using hn⟩

/-- An index that is too long stops the run: the reference is not reported as unresolved,
although there is no node that it leads to. -/
theorem deref_overlong :
    PlainReferences listsDocument ∧
      RefersPlainly (.map [(.text "$ref", .text (ninesPointer 4301))]) ∧
      (∀ next, Pointer.resolve listsDocument (ninesPointer 4301) ≠ .ok next) ∧
      deref listsDocument (.map [(.text "$ref", .text (ninesPointer 4301))]) "#/start" =
        .error .notNumber ∧
      ¬ Unresolved listsDocument (.map [(.text "$ref", .text (ninesPointer 4301))]) "#/start" := by
  have hlong := overlong_ninesPointer (n := 4301) (by decide)
  have hascii := isAscii_ninesPointer 4301
  generalize ninesPointer 4301 = pointer at hlong hascii ⊢
  have plain : PlainReferences listsDocument := by
    intro r hr
    cases hr
  have start : RefersPlainly (.map [(.text "$ref", .text pointer)]) := by
    intro r hr
    cases hr
    exact ⟨pointer, rfl, hascii⟩
  have hderef : deref listsDocument (.map [(.text "$ref", .text pointer)]) "#/start" =
      .error .notNumber :=
    (deref_eq_notNumber_iff _ _ "#/start").mpr ⟨[], _, pointer, .here, rfl, hlong.unreadable⟩
  refine ⟨plain, start, fun next h => ?_, hderef, ?_⟩
  · cases hlong.unreadable.resolve.symm.trans h
  · rintro ⟨fault, h, -⟩
    cases hderef.symm.trans h

end ApiContract.ContractReader
