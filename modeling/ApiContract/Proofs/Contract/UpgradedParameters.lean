import ApiContract.Proofs.Contract.Declared
import ApiContract.Proofs.Contract.UpgradedSchemas

/-! # Parameters of the newer version

In the older version the body of a request is one of the parameters. Parameters in the body
are left out, and the others keep their place, name and schema. Merging the shared
parameters with the own ones of an operation then gives the parameters that were merged
before but for those in the body, which are merged by their names alone.
-/
namespace ApiContract

theorem Scalar.beq_text_congr {x y : Scalar} (h : (x == y) = true) (s : String) :
    (x == .text s) = (y == .text s) := by
  cases x <;> cases y <;> simp_all [BEq.beq, Scalar.same, Scalar.measure?, Scalar.number?]

namespace Upgrade

/-- A parameter: one without a schema is described by its own keywords, as deep as they go. -/
def parameter (fields : Fields) : Fields :=
  Fields.rewrite (fun key value =>
    if key = "schema" then schema value
    else if key = "items" then
      schemaWithin (Tree.map (ContractReader.inlineSchema fields)).size value
    else value) fields

def isBody (fields : Fields) : Bool :=
  ((Fields.field? fields "in").bind Tree.text?) == some "body"

/-- The parameters that are not in the body. -/
def kept (nodes : List Tree) : List Tree :=
  (nodes.filter fun node => !(node.fields?.any isBody)).map (Tree.mapFields parameter)

def parameters (value : Tree) : Tree :=
  match value.items? with
  | some nodes => .list (kept nodes)
  | none => value

/-- The parameters of a list. -/
def parameterNodes (value : Tree) : List Fields := (value.items?.getD []).filterMap Tree.fields?

def nameOf (fields : Fields) : Scalar :=
  ((Fields.field? fields "name").getD (.text "")).scalar?.getD .null

/-- The parameters in the body under their names, own ones in the places of shared ones. -/
def bodies (shared own : Tree) : Table Scalar Fields :=
  Table.ofPairs (((parameterNodes shared ++ parameterNodes own).filter isBody).map
    fun fields => (nameOf fields, fields))

/-- A parameter that is no reference and has a schema of the older version. -/
def FitsParameter (fields : Fields) : Prop :=
  Fields.hasField fields "$ref" = false ∧ Fields.hasField fields "content" = false

instance (fields : Fields) : Decidable (FitsParameter fields) :=
  inferInstanceAs (Decidable (_ ∧ _))

end Upgrade

namespace ContractReader

open Upgrade

variable {scope scope' : Scope} {place place' label label' : String} {fields : Fields}

theorem field?_parameter {k : String} (hk : k ∉ ["schema", "items"]) :
    Fields.field? (parameter fields) k = Fields.field? fields k := by
  simp only [List.mem_cons, List.not_mem_nil, or_false, not_or] at hk
  simp [parameter, hk]

theorem hasField_parameter {k : String} (hk : k ∉ ["schema", "items"]) :
    Fields.hasField (parameter fields) k = Fields.hasField fields k := by
  rw [Fields.hasField_eq, field?_parameter hk, Fields.hasField_eq]

theorem deref_of_not_hasField {document node : Tree}
    (h : ∀ fields, node.fields? = some fields → Fields.hasField fields "$ref" = false) :
    deref document node place = .ok node := by
  have hnone : referenceOf? node = none := by
    rw [referenceOf?, Option.bind_eq_none_iff]
    intro fields hfields
    have hno := h fields hfields
    rwa [Fields.hasField_eq, Option.isSome_eq_false_iff, Option.isNone_iff_eq_none] at hno
  rw [deref, hnone]

theorem Keyed.parameter {key : Scalar × Scalar} (h : Keyed fields key) :
    Keyed (parameter fields) key :=
  ⟨by rw [field?_parameter (by decide), h.place], by rw [field?_parameter (by decide), h.name]⟩

theorem Keyed.nameOf {key : Scalar × Scalar} (h : Keyed fields key) : nameOf fields = key.2 := by
  rw [Upgrade.nameOf, h.name]
  rfl

def isBodyKey (key : Scalar × Scalar) : Bool := key.1 == .text "body"

theorem isBodyKey_congr (a b : Scalar × Scalar) (h : (a == b) = true) :
    isBodyKey a = isBodyKey b := by
  have hplace : (a.1 == b.1) = true := (Bool.and_eq_true_iff.mp h).1
  exact Scalar.beq_text_congr hplace "body"

theorem Keyed.isBodyKey {key : Scalar × Scalar} (h : Keyed fields key) :
    isBodyKey key = isBody fields := by
  have hplace := h.place
  rw [Bool.eq_iff_iff, ContractReader.isBodyKey, Scalar.beq_text_iff, isBody, beq_iff_eq]
  cases hin : Fields.field? fields "in" with
  | none =>
    rw [hin] at hplace
    simp only [Option.getD_none, Tree.scalar.injEq] at hplace
    simp [← hplace]
  | some value =>
    rw [hin, Option.getD_some] at hplace
    rw [hplace, Option.bind_some, Tree.text?_eq_some, Tree.scalar.injEq]

/-- A declared parameter and what becomes of it, wherever the two stand. -/
def Renewed (declared declared' : Declared) : Prop :=
  declared'.1 = parameter declared.1

/-- Merged parameters, those that are not in the body as they are read from the newer
version, and those in the body under their names. -/
structure Split (merged merged' : Declarations) (bodies : Table Scalar Fields) : Prop where
  parameters : List.Forall₂ (fun e e' => e'.1 = e.1 ∧ Renewed e.2 e'.2)
    (merged.filter fun e => !isBodyKey e.1) merged'
  bodies : (merged.filter fun e => isBodyKey e.1).map (Prod.map Prod.snd Prod.fst) = bodies
  contentless : ∀ d ∈ Table.values merged, Fields.hasField d.1 "content" = false

theorem split_nil : Split [] [] [] := ⟨.nil, rfl, by simp [Table.values]⟩

variable {merged merged' : Declarations} {found : Table Scalar Fields} {key : Scalar × Scalar}

theorem Split.contentless_put (h : Split merged merged' found)
    (hfits : Fields.hasField fields "content" = false) :
    ∀ d ∈ Table.values (Table.put merged key (fields, place)),
      Fields.hasField d.1 "content" = false := by
  intro d hd
  rcases Table.mem_values_put hd with hd | rfl
  · exact h.contentless d hd
  · exact hfits

theorem not_isBodyKey_congr (a b : Scalar × Scalar) (h : (a == b) = true) :
    (!isBodyKey a) = !isBodyKey b :=
  congrArg not (isBodyKey_congr a b h)

theorem Split.put_parameter (h : Split merged merged' found) (hkey : isBodyKey key = false)
    (hfits : Fields.hasField fields "content" = false) :
    Split (Table.put merged key (fields, place)) (Table.put merged' key (parameter fields, place'))
      found where
  parameters := by
    rw [Table.filter_put not_isBodyKey_congr, hkey]
    exact Table.forall₂_put h.parameters key rfl
  bodies := by
    rw [Table.filter_put isBodyKey_congr, hkey]
    exact h.bodies
  contentless := h.contentless_put hfits

/-- Among parameters in the body only the names tell keys apart. -/
theorem Split.put_body (h : Split merged merged' found) (hkey : isBodyKey key = true)
    (hfits : Fields.hasField fields "content" = false) :
    Split (Table.put merged key (fields, place)) merged' (Table.put found key.2 fields) where
  parameters := by
    rw [Table.filter_put not_isBodyKey_congr, hkey]
    exact h.parameters
  bodies := by
    have hsame : ∀ e ∈ merged.filter fun e => isBodyKey e.1, (e.1.2 == key.2) = (e.1 == key) := by
      intro e he
      have hbody := (List.mem_filter.mp he).2
      rw [isBodyKey, Scalar.beq_text_iff] at hbody hkey
      have hpair : (e.1 == key) = (e.1.1 == key.1 && e.1.2 == key.2) := rfl
      rw [hpair, hbody, hkey, beq_self_eq_true, Bool.true_and]
    rw [Table.filter_put isBodyKey_congr, hkey, if_pos rfl, Table.map_put hsame, h.bodies]
  contentless := h.contentless_put hfits

/-- A node that is no reference, if it has fields at all. -/
def Direct (node : Tree) : Prop :=
  ∀ fields, node.fields? = some fields → Fields.hasField fields "$ref" = false

theorem declaresAt_iff {node : Tree} {i : ℕ} {d : (Scalar × Scalar) × Declared}
    (hnode : Direct node) : DeclaresAt scope.document place (node, i) d ↔
      node.fields? = some d.2.1 ∧ Keyed d.2.1 d.1 ∧
        d.2.2 = place ++ "/parameters/" ++ toString i := by
  constructor
  · rintro ⟨hplace, ⟨target, htarget, hfields⟩, hkeyed⟩
    cases (deref_of_not_hasField hnode).symm.trans htarget
    exact ⟨hfields, hkeyed, hplace⟩
  · rintro ⟨hfields, hkeyed, hplace⟩
    exact ⟨hplace, ⟨node, deref_of_not_hasField hnode, hfields⟩, hkeyed⟩

theorem addShared_eq_ok_iff {node : Tree} {i : ℕ} (hnode : Direct node) :
    addShared scope place merged (node, i) = .ok merged' ↔
      ∃ fields key, node.fields? = some fields ∧ Keyed fields key ∧
        merged' = Table.put merged key (fields, place ++ "/parameters/" ++ toString i) := by
  simp only [addShared_eq, Outcome.bind_eq_ok, Outcome.pure_eq_ok, readShared_eq_ok_iff,
    declaresAt_iff hnode]
  constructor
  · rintro ⟨⟨key, fields, spot⟩, ⟨hfields, hkeyed, rfl⟩, rfl⟩
    exact ⟨fields, key, hfields, hkeyed, rfl⟩
  · rintro ⟨fields, key, hfields, hkeyed, rfl⟩
    exact ⟨(key, fields, _), ⟨hfields, hkeyed, rfl⟩, rfl⟩

/-- An own parameter has a name and a place, which no own parameter before it had. -/
theorem addOwn_eq_ok_iff {node : Tree} {i : ℕ} {state state' : OwnState} (hnode : Direct node) :
    addOwn scope place label state (node, i) = .ok state' ↔
      ∃ fields key, node.fields? = some fields ∧ Keyed fields key ∧
        Fields.hasField fields "in" = true ∧ Fields.hasField fields "name" = true ∧
        (∀ k ∈ state.own, (k == key) = false) ∧
        state' =
          { merged := Table.put state.merged key (fields, place ++ "/parameters/" ++ toString i),
            own := key :: state.own } := by
  simp only [addOwn_eq, Outcome.bind_eq_ok, readOwn_eq_ok_iff, OwnState.accept_eq_ok_iff]
  constructor
  · rintro ⟨⟨key, fields, spot⟩, ⟨hdeclares, hin, hname⟩, hnew, rfl⟩
    obtain ⟨hfields, hkeyed, rfl⟩ := (declaresAt_iff hnode).mp hdeclares
    exact ⟨fields, key, hfields, hkeyed, hin, hname, hnew, rfl⟩
  · rintro ⟨fields, key, hfields, hkeyed, hin, hname, hnew, rfl⟩
    exact ⟨(key, fields, _), ⟨(declaresAt_iff hnode).mpr ⟨hfields, hkeyed, rfl⟩, hin, hname⟩,
      hnew, rfl⟩

theorem direct_of_fits {node : Tree} (h : ∀ f, node.fields? = some f → FitsParameter f) :
    Direct node :=
  fun f hf => (h f hf).1

theorem Direct.mapFields {f : Fields → Fields} {t : Tree} (h : Direct t)
    (hf : ∀ fields, Fields.hasField (f fields) "$ref" = Fields.hasField fields "$ref") :
    Direct (t.mapFields f) := by
  intro fields' hfields'
  rw [Tree.fields?_mapFields] at hfields'
  obtain ⟨fields, hfields, rfl⟩ := Option.map_eq_some_iff.mp hfields'
  rw [hf, h fields hfields]

/-- Merges the parameters in the body of some nodes behind those that were found. -/
def addBodies (found : Table Scalar Fields) (nodes : List Tree) : Table Scalar Fields :=
  ((nodes.filterMap Tree.fields?).filter isBody).foldl (fun t f => Table.put t (nameOf f) f) found

/-- A step that merges a parameter, as the step of the other walk does with what becomes of
it, or as one in the body. -/
def Merges {σ σ' : Type} (R : σ → σ' → Table Scalar Fields → Prop)
    (step : σ → Tree × ℕ → Outcome σ) (step' : σ' → Tree × ℕ → Outcome σ') : Prop :=
  ∀ node i j s t found next, (∀ f, node.fields? = some f → FitsParameter f) → R s t found →
    step s (node, i) = .ok next → ∃ fields, node.fields? = some fields ∧
      if isBody fields then R next t (Table.put found (nameOf fields) fields)
      else ∃ next', step' t (node.mapFields parameter, j) = .ok next' ∧ R next next' found

/-- Walks over parameters, one of which passes over those in the body. The two walks count the
places apart, for the second comes to fewer nodes. -/
theorem Merges.foldlM {σ σ' : Type} {R : σ → σ' → Table Scalar Fields → Prop}
    {step : σ → Tree × ℕ → Outcome σ} {step' : σ' → Tree × ℕ → Outcome σ'}
    (hstep : Merges R step step') {nodes : List Tree}
    (hfits : ∀ f ∈ nodes.filterMap Tree.fields?, FitsParameter f) {s : σ} {t : σ'}
    (h : R s t found) (i j : ℕ) :
    Outcome.Refines (fun s t => R s t (addBodies found nodes))
      ((nodes.zipIdx i).foldlM step s) (((kept nodes).zipIdx j).foldlM step' t) := by
  induction nodes generalizing s t found i j with
  | nil => exact .ok h
  | cons node rest ih =>
    have hnode : ∀ f, node.fields? = some f → FitsParameter f := by
      intro f hf
      exact hfits f (List.mem_filterMap.mpr ⟨node, List.mem_cons_self, hf⟩)
    have hrest : ∀ f ∈ rest.filterMap Tree.fields?, FitsParameter f := by
      intro f hf
      obtain ⟨n, hn, hf⟩ := List.mem_filterMap.mp hf
      exact hfits f (List.mem_filterMap.mpr ⟨n, List.mem_cons_of_mem _ hn, hf⟩)
    intro final hfinal
    rw [List.zipIdx_cons, List.foldlM_cons] at hfinal
    obtain ⟨next, hnext, hfinal⟩ := Outcome.bind_eq_ok.mp hfinal
    obtain ⟨fields, hfields, hmerged⟩ := hstep node i j s t found next hnode h hnext
    cases hbody : isBody fields with
    | true =>
      have hkept : kept (node :: rest) = kept rest := by simp [kept, hfields, hbody]
      have hbodies : addBodies found (node :: rest) =
          addBodies (Table.put found (nameOf fields) fields) rest := by
        simp [addBodies, hfields, hbody]
      rw [hbody, if_pos rfl] at hmerged
      rw [hkept, hbodies]
      exact ih hrest hmerged _ _ final hfinal
    | false =>
      have hkept : kept (node :: rest) = node.mapFields parameter :: kept rest := by
        simp [kept, hfields, hbody]
      have hbodies : addBodies found (node :: rest) = addBodies found rest := by
        simp [addBodies, hfields, hbody]
      rw [hbody, if_neg Bool.false_ne_true] at hmerged
      obtain ⟨next', hnext', hR⟩ := hmerged
      rw [hkept, hbodies, List.zipIdx_cons, List.foldlM_cons, hnext']
      exact ih hrest hR _ _ final hfinal

theorem merges_addShared : Merges Split (addShared scope place) (addShared scope' place') := by
  intro node i j merged merged' found next hfits h hnext
  obtain ⟨fields, key, hfields, hkey, rfl⟩ :=
    (addShared_eq_ok_iff (direct_of_fits hfits)).mp hnext
  obtain ⟨-, hcontentless⟩ := hfits fields hfields
  refine ⟨fields, hfields, ?_⟩
  split
  · next hbody =>
    rw [hkey.nameOf]
    exact h.put_body (hkey.isBodyKey.trans hbody) hcontentless
  · next hbody =>
    have hfields' : (node.mapFields parameter).fields? = some (parameter fields) := by
      rw [Tree.fields?_mapFields, hfields, Option.map_some]
    have hkey' : isBodyKey key = false := by simpa [hkey.isBodyKey] using hbody
    have hdirect := (direct_of_fits hfits).mapFields fun _ => hasField_parameter (by decide)
    refine ⟨_, (addShared_eq_ok_iff hdirect).mpr ⟨_, key, hfields', hkey.parameter, rfl⟩, ?_⟩
    exact h.put_parameter hkey' hcontentless

/-- Fewer keys of own parameters are met when some of the parameters are passed over. -/
def SplitOwn (state state' : OwnState) (found : Table Scalar Fields) : Prop :=
  Split state.merged state'.merged found ∧ state'.own ⊆ state.own

theorem merges_addOwn :
    Merges SplitOwn (addOwn scope place label) (addOwn scope' place' label') := by
  intro node i j state state' found next hfits h hnext
  obtain ⟨fields, key, hfields, hkey, hin, hname, hnew, rfl⟩ :=
    (addOwn_eq_ok_iff (direct_of_fits hfits)).mp hnext
  obtain ⟨-, hcontentless⟩ := hfits fields hfields
  refine ⟨fields, hfields, ?_⟩
  split
  · next hbody =>
    rw [hkey.nameOf]
    exact ⟨h.1.put_body (hkey.isBodyKey.trans hbody) hcontentless,
      List.subset_cons_of_subset _ h.2⟩
  · next hbody =>
    have hfields' : (node.mapFields parameter).fields? = some (parameter fields) := by
      rw [Tree.fields?_mapFields, hfields, Option.map_some]
    have hkey' : isBodyKey key = false := by simpa [hkey.isBodyKey] using hbody
    have hdirect := (direct_of_fits hfits).mapFields fun _ => hasField_parameter (by decide)
    refine ⟨_, (addOwn_eq_ok_iff hdirect).mpr ⟨_, key, hfields', hkey.parameter, ?_, ?_,
      fun k hk => hnew k (h.2 hk), rfl⟩, ?_⟩
    · rw [hasField_parameter (by decide), hin]
    · rw [hasField_parameter (by decide), hname]
    · exact ⟨h.1.put_parameter hkey' hcontentless, List.cons_subset_cons _ h.2⟩

theorem optionalMembers_of_items? {value : Tree} {items : List Tree}
    (h : value.items? = some items) : optionalMembers value = .ok items := by
  have hmembers : value.members? = some items := by
    unfold Tree.items? at h
    unfold Tree.members?
    split at h
    · next hopened =>
      cases h
      rw [hopened]
    · cases h
  unfold optionalMembers
  split
  · rw [hmembers]
    rfl
  · next hfalsy =>
    cases value with
    | list items' =>
      cases h
      have hempty : items = [] := by simpa [Tree.isTruthy] using hfalsy
      rw [hempty]
    | loop label body => exact absurd rfl hfalsy
    | _ => cases h

/-- The members of what is no list are keys or characters. -/
theorem fields?_of_optionalMembers {value : Tree} {nodes : List Tree} (hitems : value.items? = none)
    (h : optionalMembers value = .ok nodes) : ∀ node ∈ nodes, node.fields? = none := by
  unfold optionalMembers at h
  split at h
  · rw [Outcome.need_eq_ok] at h
    unfold Tree.items? at hitems
    unfold Tree.members? at h
    intro node hnode
    split at h
    · next hopened =>
      rw [hopened] at hitems
      cases hitems
    · cases h
      obtain ⟨e, -, rfl⟩ := List.mem_map.mp hnode
      rfl
    · cases h
      obtain ⟨c, -, rfl⟩ := List.mem_map.mp hnode
      rfl
    · cases h
  · cases h
    simp

theorem optionalMembers_parameters (value : Tree) :
    Outcome.Refines (fun nodes nodes' => nodes' = kept nodes ∧
        nodes.filterMap Tree.fields? = parameterNodes value)
      (optionalMembers value) (optionalMembers (parameters value)) := by
  intro nodes hnodes
  cases hitems : value.items? with
  | some items =>
    rw [optionalMembers_of_items? hitems] at hnodes
    cases hnodes
    have hlist : parameters value = .list (kept nodes) := by rw [parameters, hitems]
    rw [hlist]
    exact ⟨kept nodes, optionalMembers_of_items? rfl, rfl, by rw [parameterNodes, hitems]; rfl⟩
  | none =>
    have hplain := fields?_of_optionalMembers hitems hnodes
    have hsame : parameters value = value := by rw [parameters, hitems]
    have hkept : kept nodes = nodes := by
      have hall : (nodes.filter fun node => !(node.fields?.any isBody)) = nodes := by
        refine List.filter_eq_self.mpr fun node hnode => ?_
        rw [hplain node hnode]
        rfl
      have hid : ∀ node ∈ nodes, node.mapFields parameter = id node :=
        fun node hnode => Tree.mapFields_of_fields?_eq_none (hplain node hnode)
      rw [kept, hall, List.map_congr_left hid, List.map_id]
    have hnone : nodes.filterMap Tree.fields? = [] := List.filterMap_eq_nil_iff.mpr hplain
    have hnodesOf : parameterNodes value = [] := by
      rw [parameterNodes, hitems]
      rfl
    rw [hsame]
    exact ⟨nodes, hnodes, hkept.symm, hnone.trans hnodesOf.symm⟩

/-- Merging from the newer version gives the parameters that are not in the body, and passes
over those that are. -/
theorem refines_mergeParameters {shared own : Tree}
    (hshared : ∀ f ∈ parameterNodes shared, FitsParameter f)
    (hown : ∀ f ∈ parameterNodes own, FitsParameter f) {itemPlace itemPlace' : String} :
    Outcome.Refines (fun merged merged' => Split merged merged' (bodies shared own))
      (mergeParameters scope itemPlace place label shared own)
      (mergeParameters scope' itemPlace' place' label' (parameters shared) (parameters own)) := by
  refine .bind (optionalMembers_parameters shared) ?_
  rintro sharedNodes _ - ⟨rfl, hsharedNodes⟩
  rw [← hsharedNodes] at hshared
  refine .bind (merges_addShared.foldlM hshared split_nil 0 0) fun merged merged' _ hmerged => ?_
  refine .bind (optionalMembers_parameters own) ?_
  rintro ownNodes _ - ⟨rfl, hownNodes⟩
  rw [← hownNodes] at hown
  have hstart : SplitOwn { merged := merged } { merged := merged' } (addBodies [] sharedNodes) :=
    ⟨hmerged, List.Subset.refl _⟩
  refine .bind (merges_addOwn.foldlM hown hstart 0 0) fun state state' _ hstate => .pure ?_
  have hbodies : bodies shared own = addBodies (addBodies [] sharedNodes) ownNodes := by
    rw [bodies, ← hsharedNodes, ← hownNodes, Table.ofPairs, List.filter_append, List.map_append,
      List.foldl_append, List.foldl_map, List.foldl_map]
    rfl
  rw [hbodies]
  exact hstate.1

/-- Schemas that may be absent, and that differ in their places only. -/
def AlikeIfAny (s s' : Option Schema) : Prop := s'.map Schema.unplaced = s.map Schema.unplaced

theorem inlineSchema_parameter : inlineSchema (parameter fields) = Fields.rewrite
    (keyword (schemaWithin (Tree.map (inlineSchema fields)).size)) (inlineSchema fields) := by
  have hvalue : ∀ k ∈ inlineKeywords, Fields.field? (parameter fields) k =
      (Fields.field? fields k).map
        (keyword (schemaWithin (Tree.map (inlineSchema fields)).size) k) := by
    intro k hk
    rw [parameter, Fields.field?_rewrite]
    congr 1
    funext value
    simp only [inlineKeywords, List.mem_cons, List.not_mem_nil, or_false] at hk
    rcases hk with rfl | rfl | rfl | rfl | rfl <;> simp [keyword]
  generalize hinner : schemaWithin (Tree.map (inlineSchema fields)).size = inner at hvalue ⊢
  rw [inlineSchema, inlineSchema, Fields.rewrite, List.map_filterMap]
  refine List.filterMap_congr fun k hk => ?_
  rw [hvalue k hk, Option.map_map, Option.map_map]
  rfl

/-- A parameter without a schema is read from its own keywords, which hold one. -/
theorem refines_readInline (hscope : SchemaScope.Upgraded scope.schemas scope'.schemas) :
    Outcome.Refines Schema.Alike (scope.schemas.read (.map (inlineSchema fields)) place)
      (scope'.schemas.read (.map (inlineSchema (parameter fields))) place') := by
  rw [inlineSchema_parameter]
  exact SchemaScope.refines_readWithin hscope
    (t := .map (inlineSchema fields)) (Nat.le_succ _) (Nat.le_refl _)

theorem refines_readParameterSchema
    (hscope : SchemaScope.Upgraded scope.schemas scope'.schemas)
    (hcontentless : Fields.hasField fields "content" = false) :
    Outcome.Refines AlikeIfAny (readParameterSchema scope fields place)
      (readParameterSchema scope' (parameter fields) place') := by
  have hsome : ∀ s s', Schema.Alike s s' → AlikeIfAny (some s) (some s') :=
    fun s s' h => congrArg some h
  have hschema : Fields.field? (parameter fields) "schema" =
      (Fields.field? fields "schema").map schema := by
    rw [parameter, Fields.field?_rewrite]
    congr
  have hcontent : Fields.field? fields "content" = none := by
    rwa [Fields.hasField_eq, Option.isSome_eq_false_iff, Option.isNone_iff_eq_none] at hcontentless
  have hcontent' : Fields.field? (parameter fields) "content" = none :=
    (field?_parameter (by decide)).trans hcontent
  unfold readParameterSchema
  rw [hschema, hcontent, hcontent']
  cases Fields.field? fields "schema" with
  | some node => exact .map (SchemaScope.refines_read hscope node _ _) hsome
  | none =>
    have hempty : (inlineSchema (parameter fields)).isEmpty = (inlineSchema fields).isEmpty := by
      rw [inlineSchema_parameter, Fields.rewrite, List.isEmpty_map]
    dsimp only [Option.map_none]
    rw [hempty]
    split
    · exact .ok rfl
    · exact .map (refines_readInline hscope) hsome

end ContractReader

end ApiContract
