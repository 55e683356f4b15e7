import ApiContract.Proofs.Types.Flattened

/-! # Circles of members

The members of an object lead to components: to those that they name, and to those that the
objects behind them lead to. Merging follows them with the components it entered in hand. It
hands these to the object behind a member, where they are the path from the start, and also
on to the members that come next, where they are no path at all. So an object is refused over
a circle in two cases. Its members lead from a component back to it; or an object that they
lead to lists a component and, in a member that follows, leads to this component again, with
no circle anywhere.
-/
namespace ApiContract

namespace Failure

/-- The component through which an object is said to be a member of itself. -/
def circle? : Failure → Option String
  | schema (.allOfCycle name) _ => some name
  | _ => none

theorem circle?_eq_some {e : Failure} {name : String} (h : e.circle? = some name) :
    ∃ location, e = .schema (.allOfCycle name) location := by
  unfold circle? at h
  split at h
  · cases h
    exact ⟨_, rfl⟩
  · cases h

end Failure

variable {contract : Contract}

/-- Members of the schema, followed through references, lead to the component. -/
inductive Leads (contract : Contract) : Schema → String → Prop
  | named {s m : Schema} {name : String} (member : m ∈ s.members) (named : name ∈ m.entered) :
      Leads contract s name
  | through {s m t : Schema} {name : String} (member : m ∈ s.members)
      (target : contract.target m = .ok t) (leads : Leads contract t name) : Leads contract s name

/-- The schemas that following members comes to. -/
inductive Below (contract : Contract) : Schema → Schema → Prop
  | self (s : Schema) : Below contract s s
  | through {s m t o : Schema} (member : m ∈ s.members) (target : contract.target m = .ok t)
      (below : Below contract t o) : Below contract s o

/-- Members of the schema lead to a component, and from there back to it. -/
def Circles (contract : Contract) (s : Schema) (name : String) : Prop :=
  Leads contract s name ∧
    ∃ location t, contract.target (.reference location name) = .ok t ∧ Leads contract t name

/-- A member names the component, and a later member names it too or leads to it. -/
def Relists (contract : Contract) (o : Schema) (name : String) : Prop :=
  ∃ before m after, o.members = before ++ m :: after ∧ name ∈ before.flatMap Schema.entered ∧
    (name ∈ m.entered ∨ ∃ t, contract.target m = .ok t ∧ Leads contract t name)

/-- Every member leads to an object. -/
def Resolves (contract : Contract) (o : Schema) : Prop :=
  ∀ m ∈ o.members, ∃ t, contract.target m = .ok t ∧ t.isObject = true

theorem Circles.through {s m t : Schema} {name : String} (member : m ∈ s.members)
    (target : contract.target m = .ok t) (h : Circles contract t name) :
    Circles contract s name :=
  ⟨.through member target h.1, h.2⟩

theorem Schema.mem_entered {m : Schema} {name : String} :
    name ∈ m.entered ↔ ∃ location, m = .reference location name := by
  cases m <;> simp [entered, eq_comm]

/-- What a reference leads to does not depend on where it stands. -/
theorem Contract.target_reference_eq {location location' name : String} {t t' : Schema}
    (h : contract.target (.reference location name) = .ok t)
    (h' : contract.target (.reference location' name) = .ok t') (object : t.isObject = true) :
    t' = t := by
  simp only [target, targetWithin] at h h'
  split at h
  · cases h
    cases object
  · next hname =>
    rw [if_neg hname] at h'
    simp only [List.not_mem_nil, if_false] at h h'
    exact Except.ok.inj (h'.symm.trans h)

theorem Contract.targetWithin_circle? (fuel : ℕ) (seen : List String) (s : Schema) :
    (contract.targetWithin fuel seen s).Avoids fun e => e.circle?.isSome := by
  induction fuel generalizing seen s with
  | zero => exact .error rfl
  | succ fuel ih =>
    unfold targetWithin
    split
    · split
      · exact .ok _
      · split
        · exact .error rfl
        · exact .bind (.need rfl _) fun next => ih _ next
    · exact .ok _

namespace Merged

variable {merge : List String → Schema → Outcome Merged}

/-- A schema without circles and without members that lead to a component that was entered;
what is below it lists no component again, and its members lead to objects. -/
structure Sound (contract : Contract) (seen : List String) (s : Schema) : Prop where
  fresh : ∀ name, Leads contract s name → name ∉ seen
  straight : ∀ name, ¬ Circles contract s name
  once : ∀ o, Below contract s o → ∀ name, ¬ Relists contract o name
  resolves : ∀ o, Below contract s o → Resolves contract o

/-- Each member is added with those before it entered. -/
theorem adds_of_foldlM {members before after : List Schema} {m : Schema} {state final : State}
    (split : members = before ++ m :: after)
    (h : members.foldlM (addMember contract merge) state = .ok final) :
    ∃ mid t part, before.foldlM (addMember contract merge) state = .ok mid ∧
      Adds contract merge mid m t ∧ merge (m.entered ++ mid.seen) t = .ok part := by
  rw [split, List.foldlM_append] at h
  obtain ⟨mid, hmid, h⟩ := Outcome.bind_eq_ok.mp h
  rw [List.foldlM_cons] at h
  obtain ⟨next, hnext, -⟩ := Outcome.bind_eq_ok.mp h
  obtain ⟨t, part, hadds, hpart, -⟩ := addMember_eq_ok hnext
  exact ⟨mid, t, part, hmid, hadds, hpart⟩

theorem Sound.mono {seen seen' : List String} {s : Schema} (h : Sound contract seen s)
    (hseen : seen' ⊆ seen) : Sound contract seen' s :=
  { h with fresh := fun name hleads hmem => h.fresh name hleads (hseen hmem) }

theorem Sound.mono_append {entered seen seen' : List String} {s : Schema}
    (h : Sound contract (entered ++ seen) s) (hseen : seen' ⊆ seen) :
    Sound contract (entered ++ seen') s :=
  h.mono fun _ hname =>
    List.mem_append.mpr ((List.mem_append.mp hname).imp_right fun hmem => hseen hmem)

/-- A member that was added after those before it. -/
structure Joins (contract : Contract) (seen : List String) (before : List Schema) (m t : Schema) :
    Prop where
  target : contract.target m = .ok t
  object : t.isObject = true
  fresh : ∀ name ∈ m.entered, name ∉ before.flatMap Schema.entered ++ seen
  sound : Sound contract (m.entered ++ (before.flatMap Schema.entered ++ seen)) t

/-- A schema each of whose members joins those before it. -/
def Joined (contract : Contract) (seen : List String) (s : Schema) : Prop :=
  ∀ before m after, s.members = before ++ m :: after → ∃ t, Joins contract seen before m t

namespace Joined

variable {seen : List String} {s m : Schema}

/-- Whatever comes before a member, what was entered at first is entered before it. -/
theorem member (h : Joined contract seen s) (hm : m ∈ s.members) :
    ∃ t, Joins contract seen [] m t := by
  obtain ⟨before, after, hsplit⟩ := List.append_of_mem hm
  obtain ⟨t, htarget, hobject, hfresh, hsound⟩ := h before m after hsplit
  have hseen : seen ⊆ before.flatMap Schema.entered ++ seen := List.subset_append_right _ _
  exact ⟨t, htarget, hobject, fun name hname hmem => hfresh name hname (hseen hmem),
    hsound.mono_append hseen⟩

theorem fresh (h : Joined contract seen s) {name : String} (hleads : Leads contract s name) :
    name ∉ seen := by
  cases hleads with
  | named hm hname =>
    obtain ⟨t, hjoins⟩ := h.member hm
    exact hjoins.fresh name hname
  | through hm htarget hleads =>
    obtain ⟨t, hjoins⟩ := h.member hm
    cases htarget.symm.trans hjoins.target
    exact fun hmem => hjoins.sound.fresh name hleads (List.mem_append_right _ hmem)

theorem straight (h : Joined contract seen s) (name : String) : ¬ Circles contract s name := by
  rintro ⟨hleads, location, t', htarget', hback⟩
  cases hleads with
  | named hm hname =>
    obtain ⟨t, hjoins⟩ := h.member hm
    obtain ⟨place, rfl⟩ := Schema.mem_entered.mp hname
    cases Contract.target_reference_eq hjoins.target htarget' hjoins.object
    exact hjoins.sound.fresh name hback (List.mem_append_left _ hname)
  | through hm htarget hleads =>
    obtain ⟨t, hjoins⟩ := h.member hm
    cases htarget.symm.trans hjoins.target
    exact hjoins.sound.straight name ⟨hleads, location, t', htarget', hback⟩

theorem not_relists (h : Joined contract seen s) (name : String) : ¬ Relists contract s name := by
  rintro ⟨before, m, after, hsplit, hbefore, hagain⟩
  obtain ⟨t, hjoins⟩ := h before m after hsplit
  have hmem : name ∈ before.flatMap Schema.entered ++ seen := List.mem_append_left _ hbefore
  rcases hagain with hname | ⟨t', htarget', hleads⟩
  · exact hjoins.fresh name hname hmem
  · cases htarget'.symm.trans hjoins.target
    exact hjoins.sound.fresh name hleads (List.mem_append_right _ hmem)

theorem sound (h : Joined contract seen s) : Sound contract seen s where
  fresh _ := h.fresh
  straight := h.straight
  once o hbelow := by
    cases hbelow with
    | self => exact h.not_relists
    | through hm htarget hbelow =>
      obtain ⟨t, hjoins⟩ := h.member hm
      cases htarget.symm.trans hjoins.target
      exact hjoins.sound.once o hbelow
  resolves o hbelow := by
    cases hbelow with
    | self =>
      intro m hm
      obtain ⟨t, hjoins⟩ := h.member hm
      exact ⟨t, hjoins.target, hjoins.object⟩
    | through hm htarget hbelow =>
      obtain ⟨t, hjoins⟩ := h.member hm
      cases htarget.symm.trans hjoins.target
      exact hjoins.sound.resolves o hbelow

end Joined

theorem sound_of_ofSchemaWithin {fuel : ℕ} {seen : List String} {s : Schema} {merged : Merged}
    (object : s.isObject = true) (h : ofSchemaWithin contract fuel seen s = .ok merged) :
    Sound contract seen s := by
  induction fuel generalizing seen s merged with
  | zero => cases h
  | succ fuel ih =>
    obtain ⟨final, hfinal, -⟩ := ofSchemaWithin_eq_ok object h
    have hjoined : Joined contract seen s := by
      intro before m after hsplit
      obtain ⟨mid, t, part, hmid, hadds, hpart⟩ := adds_of_foldlM hsplit hfinal
      have hseen : before.flatMap Schema.entered ++ seen ⊆ mid.seen := fun name hname =>
        (mem_seen_of_foldlM hmid).mpr (List.mem_append.mp hname)
      exact ⟨t, hadds.target, hadds.object,
        fun name hname hmem => hadds.fresh name hname (hseen hmem),
        (ih hadds.object hpart).mono_append hseen⟩
    exact hjoined.sound

/-- A circle is found at a component that was entered on the way to the schema, one that leads
back to itself, or one that is listed again. -/
theorem circle_of_ofSchemaWithin {fuel : ℕ} {seen : List String} {s : Schema}
    {name location : String}
    (h : ofSchemaWithin contract fuel seen s = .error (.schema (.allOfCycle name) location)) :
    (Leads contract s name ∧ name ∈ seen) ∨ Circles contract s name ∨
      ∃ o, Below contract s o ∧ Relists contract o name := by
  generalize he : Failure.schema (.allOfCycle name) location = e at h
  induction fuel generalizing seen s with
  | zero =>
    cases h
    cases he
  | succ fuel ih =>
    obtain ⟨before, m, after, state, hmembers, hbefore, hrefused⟩ := ofSchemaWithin_eq_error h
    have hmember : m ∈ s.members := hmembers ▸ List.mem_append_right _ List.mem_cons_self
    have hseen : name ∈ state.seen ↔ name ∈ before.flatMap Schema.entered ∨ name ∈ seen :=
      mem_seen_of_foldlM hbefore
    cases hrefused with
    | again hentered hmem =>
      cases he
      rcases hseen.mp hmem with hmem | hmem
      · exact Or.inr (Or.inr ⟨s, .self s, before, m, after, hmembers, hmem, Or.inl hentered⟩)
      · exact Or.inl ⟨.named hmember hentered, hmem⟩
    | lost htarget => cases he ▸ Contract.targetWithin_circle? _ _ m e htarget
    | other => cases he
    | part hadds hfails =>
      rcases ih hfails with ⟨hleads, hmem⟩ | hcircles | ⟨o, hbelow, hrelists⟩
      · rcases List.mem_append.mp hmem with hentered | hmem
        · obtain ⟨place, rfl⟩ := Schema.mem_entered.mp hentered
          exact Or.inr (Or.inl ⟨.named hmember hentered, place, _, hadds.target, hleads⟩)
        · rcases hseen.mp hmem with hmem | hmem
          · exact Or.inr (Or.inr ⟨s, .self s, before, m, after, hmembers, hmem,
              Or.inr ⟨_, hadds.target, hleads⟩⟩)
          · exact Or.inl ⟨.through hmember hadds.target hleads, hmem⟩
      · exact Or.inr (Or.inl (hcircles.through hmember hadds.target))
      · exact Or.inr (Or.inr ⟨o, .through hmember hadds.target hbelow, hrelists⟩)

/-- Any other fault is found at a member that leads to no object. -/
theorem unresolved_of_ofSchemaWithin {fuel : ℕ} {seen : List String} {s : Schema} {e : Failure}
    (h : ofSchemaWithin contract fuel seen s = .error e) (fault : e.isSchema = true)
    (other : e.circle? = none) : ∃ o, Below contract s o ∧ ¬ Resolves contract o := by
  induction fuel generalizing seen s with
  | zero =>
    cases h
    cases fault
  | succ fuel ih =>
    obtain ⟨before, m, after, state, hmembers, hbefore, hrefused⟩ := ofSchemaWithin_eq_error h
    have hmember : m ∈ s.members := hmembers ▸ List.mem_append_right _ List.mem_cons_self
    cases hrefused with
    | again => cases other
    | lost htarget =>
      refine ⟨s, .self s, fun hresolves => ?_⟩
      obtain ⟨t, htarget', -⟩ := hresolves m hmember
      cases htarget.symm.trans htarget'
    | other htarget hother =>
      refine ⟨s, .self s, fun hresolves => ?_⟩
      obtain ⟨t, htarget', hobject⟩ := hresolves m hmember
      cases htarget.symm.trans htarget'
      cases hother.symm.trans hobject
    | part hadds hfails =>
      obtain ⟨o, hbelow, hresolves⟩ := ih hfails
      exact ⟨o, .through hmember hadds.target hbelow, hresolves⟩

/-- An object of a contract that was read is refused over a circle only where members lead back
to a component or where an object lists a component again. It is merged exactly when neither
is so and all members lead to objects. -/
theorem ofSchema_circles {document : Tree} (parsed : Contract.ofTree document = .ok contract)
    {root s : Schema} (held : root ∈ contract.roots) (node : s ∈ root.nodes)
    (object : s.isObject = true) :
    (∀ name location, ofSchema contract s = .error (.schema (.allOfCycle name) location) →
        Circles contract s name ∨ ∃ o, Below contract s o ∧ Relists contract o name) ∧
      ((∃ merged, ofSchema contract s = .ok merged) ↔
        (∀ name, ¬ Circles contract s name) ∧
          ∀ o, Below contract s o →
            (∀ name, ¬ Relists contract o name) ∧ Resolves contract o) := by
  have hcircle : ∀ name location,
      ofSchema contract s = .error (.schema (.allOfCycle name) location) →
        Circles contract s name ∨ ∃ o, Below contract s o ∧ Relists contract o name := by
    intro name location h
    rcases circle_of_ofSchemaWithin h with ⟨-, hmem⟩ | hcause
    · cases hmem
    · exact hcause
  refine ⟨hcircle, ?_, ?_⟩
  · rintro ⟨merged, h⟩
    have hsound := sound_of_ofSchemaWithin object h
    exact ⟨hsound.straight, fun o hbelow => ⟨hsound.once o hbelow, hsound.resolves o hbelow⟩⟩
  · rintro ⟨hstraight, hbelow⟩
    cases h : ofSchema contract s with
    | ok merged => exact ⟨merged, rfl⟩
    | error e =>
      exfalso
      have hclosed := Contract.closed_of_ofTree parsed
      have hfault := isSchema_of_ofSchema hclosed ((hclosed root held).node node) h
      cases hother : e.circle? with
      | some name =>
        obtain ⟨location, rfl⟩ := Failure.circle?_eq_some hother
        rcases hcircle name location h with hcircles | ⟨o, ho, hrelists⟩
        · exact hstraight name hcircles
        · exact (hbelow o ho).1 name hrelists
      | none =>
        obtain ⟨o, ho, hresolves⟩ := unresolved_of_ofSchemaWithin h hfault hother
        exact hresolves (hbelow o ho).2

theorem ofSchema_circles_letter :
    ∃ contract letter, Contract.ofTree lettersDocument = .ok contract ∧
      contract.schema? "Letter" = some letter ∧ letter.isObject = true ∧
      (∃ merged, ofSchema contract letter = .ok merged) ∧
      (∀ name, ¬ Circles contract letter name) ∧
      ∀ o, Below contract letter o → (∀ name, ¬ Relists contract o name) ∧ Resolves contract o := by
  obtain ⟨contract, letter, parsed, hfound, hheld, hvalues⟩ := exists_component lettersDocument
    "Letter"
    (f := fun contract letter => (letter.isObject, (ofSchema contract letter).toOption.map
      fun merged => merged.properties.length))
    (b := (true, some 4)) (by decide +kernel)
  obtain ⟨hobject, hmerged⟩ := Prod.mk.inj hvalues
  obtain ⟨merged, hmerged, -⟩ := Outcome.exists_of_map_toOption hmerged
  obtain ⟨hstraight, hbelow⟩ :=
    (ofSchema_circles parsed hheld (Schema.self_mem_nodes letter) hobject).2.mp ⟨merged, hmerged⟩
  exact ⟨contract, letter, parsed, hfound, hobject, ⟨merged, hmerged⟩, hstraight, hbelow⟩

end Merged

/-- The schema with its members in the other order. -/
def Schema.turned : Schema → Schema
  | object notes properties required members => object notes properties required members.reverse
  | s => s

theorem Schema.mem_members_turned {s m : Schema} (h : m ∈ s.members) : m ∈ s.turned.members := by
  cases s with
  | object => exact List.mem_reverse.mpr h
  | _ => exact h

theorem Leads.turned {s : Schema} {name : String} (h : Leads contract s name) :
    Leads contract s.turned name := by
  cases h with
  | named hm hname => exact .named (Schema.mem_members_turned hm) hname
  | through hm htarget hleads => exact .through (Schema.mem_members_turned hm) htarget hleads

theorem Below.turned {s o : Schema} (h : Below contract s o) :
    o = s ∨ Below contract s.turned o := by
  cases h with
  | self => exact Or.inl rfl
  | through hm htarget hbelow =>
    exact Or.inr (.through (Schema.mem_members_turned hm) htarget hbelow)

/-- An object has no circles and leads to objects when that is so in the other order. -/
theorem Merged.Sound.of_turned {seen : List String} {s : Schema}
    (h : Merged.Sound contract seen s.turned) :
    (∀ name, ¬ Circles contract s name) ∧ ∀ o, Below contract s o → Resolves contract o := by
  refine ⟨fun name hcircles => h.straight name ⟨hcircles.1.turned, hcircles.2⟩, fun o hbelow => ?_⟩
  rcases hbelow.turned with rfl | hbelow
  · exact fun m hm => h.resolves _ (.self _) m (Schema.mem_members_turned hm)
  · exact h.resolves o hbelow

namespace Merged

/-- A memo is a note and what is signed, which is a note itself. -/
def memosDocument : Tree := componentsDocument [
  (.text "Note", extending [] [("text", "string")] []),
  (.text "Signed", extending ["Note"] [("author", "string")] []),
  (.text "Memo", extending ["Note", "Signed"] [] [])]

/-- A memo leads to objects only, and never back to a component. Still it is refused over a
circle, though it would be merged if what is signed came first. -/
theorem ofSchema_refuses_memo :
    ∃ contract memo location, Contract.ofTree memosDocument = .ok contract ∧
      contract.schema? "Memo" = some memo ∧ memo.isObject = true ∧
      (∀ name, ¬ Circles contract memo name) ∧
      (∀ o, Below contract memo o → Resolves contract o) ∧
      ofSchema contract memo = .error (.schema (.allOfCycle "Note") location) := by
  obtain ⟨contract, memo, parsed, hfound, hheld, hvalues⟩ := exists_component memosDocument "Memo"
    (f := fun contract memo => (memo.isObject, memo.turned.isObject,
      (ofSchema contract memo.turned).toOption.map fun merged => merged.properties.length,
      (ofSchema contract memo).failure?.bind Failure.circle?))
    (b := (true, true, some 2, some "Note")) (by decide +kernel)
  simp only [Prod.mk.injEq] at hvalues
  obtain ⟨hobject, hturned, hmerged, hrefused⟩ := hvalues
  obtain ⟨merged, hmerged, -⟩ := Outcome.exists_of_map_toOption hmerged
  obtain ⟨hstraight, hresolves⟩ := (sound_of_ofSchemaWithin hturned hmerged).of_turned
  obtain ⟨e, he, hcircle⟩ := Option.bind_eq_some_iff.mp hrefused
  obtain ⟨location, rfl⟩ := Failure.circle?_eq_some hcircle
  exact ⟨contract, memo, location, parsed, hfound, hobject, hstraight, hresolves,
    Outcome.failure?_eq_some.mp he⟩

end Merged

end ApiContract
