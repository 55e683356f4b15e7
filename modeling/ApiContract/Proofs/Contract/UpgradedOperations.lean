import ApiContract.Proofs.Contract.UpgradedParameters

/-! # Operations of the newer version

In the newer version an operation has at most one body, with its own schema for each media
type, and so has each response. The body of an operation is the parameter that was merged for
it, and its media types are those that the operation or the document consumes. The media types
of a response are those that are produced.
-/
namespace ApiContract

namespace Upgrade

open ContractReader

/-- The media types of an operation, else those of the document, else any. -/
def typesOf (root operation : Fields) (key : String) : List Scalar :=
  ((((valueOf operation key).orElse (valueOf root key)).orElse
    (.list [.text anyMediaType])).members?.getD []).filterMap Tree.scalar?

/-- One schema for each of the media types. -/
def content (root operation : Fields) (key : String) (node : Tree) : Tree :=
  .map (Table.ofPairs ((typesOf root operation key).map fun t =>
    (t, .map [(.text "schema", schema node)])))

/-- The body of a request, from the parameter in the body and its name. -/
def requestBody (root operation : Fields) (body : Scalar × Fields) : Tree := .map [
  (.text "description", textOr body.2 "description"),
  (.text "required", .bool (valueOf body.2 "required").isTruthy),
  (.text "x-codegen-name", .scalar body.1),
  (.text "content", content root operation "consumes" (mapOf body.2 "schema"))]

def response (root operation fields : Fields) : Fields :=
  Fields.without ["schema"] fields ++ ((Fields.field? fields "schema").map fun node =>
    (Scalar.text "content", content root operation "produces" node)).toList

/-- What becomes of the value of a keyword of an operation. -/
def operationValue (root operation : Fields) (key : String) (value : Tree) : Tree :=
  if key = "parameters" then parameters value
  else if key = "responses" then values (Tree.mapFields (response root operation)) value
  else value

def operation (root : Fields) (shared : Tree) (fields : Fields) : Fields :=
  Fields.rewrite (operationValue root fields) fields ++
  ((bodies shared (valueOf fields "parameters")).head?.map fun body =>
    (Scalar.text "requestBody", requestBody root fields body)).toList

/-- The responses of an operation. -/
def responseNodes (operation : Fields) : List Fields :=
  ((mapOf operation "responses").fields?.getD []).filterMap fun e => e.2.fields?

/-- A response that is no reference and has a schema of the older version. -/
def FitsResponse (fields : Fields) : Prop :=
  Fields.hasField fields "$ref" = false ∧ Fields.hasField fields "content" = false

instance (fields : Fields) : Decidable (FitsResponse fields) :=
  inferInstanceAs (Decidable (_ ∧ _))

/-- An operation of the older version with at most one parameter in the body. Its media types
are texts, or at least can be written as texts. -/
def FitsOperation (root : Fields) (shared : Tree) (fields : Fields) : Prop :=
  Fields.hasField fields "requestBody" = false ∧
    (∀ p ∈ parameterNodes (valueOf fields "parameters"), FitsParameter p) ∧
    (∀ r ∈ responseNodes fields, FitsResponse r) ∧
    (bodies shared (valueOf fields "parameters")).length ≤ 1 ∧
    ∀ key ∈ ["consumes", "produces"], ∀ t ∈ typesOf root fields key, t.isWritable = true

instance (root : Fields) (shared : Tree) (fields : Fields) :
    Decidable (FitsOperation root shared fields) :=
  inferInstanceAs (Decidable (_ ∧ _ ∧ _ ∧ _ ∧ _))

end Upgrade

namespace ContractReader

open Upgrade Schema

/-- A document of the older version and one of the newer with the same components. -/
structure Newer (scope scope' : Scope) : Prop where
  schemas : SchemaScope.Upgraded scope.schemas scope'.schemas
  older : isSwagger scope.root = true
  newer : isSwagger scope'.root = false

variable {scope scope' : Scope} {node fields : Fields} {place place' : String} {key : String}

theorem typesOf_of_mediaTypes {types : List Scalar} (h : mediaTypes scope node key = .ok types) :
    typesOf scope.root node key = types := by
  obtain ⟨members, hmembers, hscalars⟩ := Outcome.bind_eq_ok.mp h
  rw [Outcome.need_eq_ok] at hmembers
  have hall := Outcome.forall₂_of_mapM hscalars
  rw [typesOf, hmembers, Option.getD_some]
  clear h hscalars hmembers
  induction hall with
  | nil => rfl
  | cons hm _ ih => rw [List.filterMap_cons, Outcome.need_eq_ok.mp hm, ih]

theorem unplaced_sameContent (s : Schema) (types : List Scalar) :
    Content.unplaced (sameContent s types) =
      Table.ofPairs (types.map fun t => (t, some s.unplaced)) := by
  have hmap := Table.map_ofPairs (Option.map unplaced) (types.map fun t => (t, some s))
  rw [List.map_map] at hmap
  exact hmap

/-- The schema of one media type. -/
def readMedia (scope : Scope) (location : String) (entry : Scalar × Tree) :
    Outcome (Scalar × Option Schema) :=
  match entry.2.fields?.bind fun f => Fields.field? f "schema" with
  | some node => do
    let type ← entry.1.written
    let schema ← scope.schemas.read node (location ++ "/content/" ++ type ++ "/schema")
    pure (entry.1, some schema)
  | none => pure (entry.1, none)

theorem readContent_eq (scope : Scope) (value : Tree) (location : String) :
    readContent scope value location = (do
      let entries ← need .illTyped (value.orElse (.map [])).fields?
      entries.mapM (readMedia scope location)) := rfl

theorem fields?_orElse_map (entries : Fields) :
    ((Tree.map entries).orElse (.map [])).fields? = some entries := by
  cases entries <;> rfl

/-- Whatever the media type, the schema under it is the one that stands for all of them. -/
theorem exists_readMedia (hscope : Newer scope scope') {schemaNode : Tree} {s : Schema}
    (hs : scope.schemas.read schemaNode place = .ok s) {type : Scalar}
    (htype : type.isWritable = true) :
    ∃ s', readMedia scope' place' (type, .map [(.text "schema", schema schemaNode)]) =
      .ok (type, some s') ∧ Alike s s' := by
  have hwritten : type.written = .ok type.display := by rw [Scalar.written, if_pos htype]
  obtain ⟨s', hs', hlike⟩ := SchemaScope.refines_read hscope.schemas schemaNode place
    (place' ++ "/content/" ++ type.display ++ "/schema") s hs
  refine ⟨s', ?_, hlike⟩
  show (do
    let type' ← type.written
    let schema ← scope'.schemas.read (schema schemaNode)
      (place' ++ "/content/" ++ type' ++ "/schema")
    pure (type, some schema) : Outcome (Scalar × Option Schema)) = _
  rw [hwritten]
  exact Outcome.bind_eq_ok.mpr ⟨_, rfl, Outcome.bind_eq_ok.mpr ⟨s', hs', rfl⟩⟩

/-- The contents are the same, although the newer version has a schema for each media type. -/
theorem refines_readContent (hscope : Newer scope scope') {schemaNode : Tree}
    (htypes : ∀ t ∈ typesOf scope.root node key, t.isWritable = true) :
    Outcome.Refines (fun c c' => Content.unplaced c' = Content.unplaced c)
      (do let schema ← scope.schemas.read schemaNode place
          let types ← mediaTypes scope node key
          pure (sameContent schema types))
      (readContent scope' (content scope.root node key schemaNode) place') := by
  intro c hc
  obtain ⟨s, hs, hc⟩ := Outcome.bind_eq_ok.mp hc
  obtain ⟨types, htypesEq, hc⟩ := Outcome.bind_eq_ok.mp hc
  cases hc
  rw [content, readContent_eq, fields?_orElse_map]
  rw [typesOf_of_mediaTypes htypesEq] at htypes ⊢
  have hread : ∀ e ∈ Table.ofPairs
        (types.map fun t => (t, Tree.map [(.text "schema", schema schemaNode)])),
      ∃ b, readMedia scope' place' e = .ok b ∧
        (b.1, b.2.map unplaced) = (e.1, some s.unplaced) := by
    rintro ⟨type, media⟩ he
    have hkey := Table.mem_keys_of_mem_ofPairs (Table.mem_keys_of_mem he)
    have hvalue := Table.mem_values_ofPairs (Table.mem_values.mpr ⟨_, he, rfl⟩)
    have hmedia : media = .map [(.text "schema", schema schemaNode)] := by
      simp only [List.map_map, List.mem_map] at hvalue
      obtain ⟨_, -, hmedia⟩ := hvalue
      exact hmedia.symm
    have htype : type ∈ types := by
      simpa [Table.keys] using hkey
    obtain ⟨s', hs', hlike⟩ := exists_readMedia hscope hs (htypes type htype)
    exact ⟨_, hmedia ▸ hs', by rw [Option.map_some, hlike]⟩
  obtain ⟨c', hc', hall⟩ := Outcome.exists_mapM hread
  refine ⟨c', hc', ?_⟩
  have hunplaced := Outcome.map_eq_of_forall₂ (f := fun e : Scalar × Tree => (e.1, some s.unplaced))
    (g := fun b : Scalar × Option Schema => (b.1, b.2.map unplaced)) hall
  have hmap := Table.map_ofPairs (fun _ : Tree => some s.unplaced)
    (types.map fun t => (t, Tree.map [(.text "schema", schema schemaNode)]))
  rw [List.map_map] at hmap
  exact hunplaced.trans (hmap.trans (unplaced_sameContent s types).symm)

theorem refines_deref {document document' t t' : Tree} (h : Direct t) (h' : Direct t') :
    Outcome.Refines (fun a b => a = t ∧ b = t') (deref document t place)
      (deref document' t' place') := by
  rw [deref_of_not_hasField h, deref_of_not_hasField h']
  exact .ok ⟨rfl, rfl⟩

theorem refines_fields {failure failure' : Failure} (t : Tree) (f : Fields → Fields) :
    Outcome.Refines (fun fields fields' => t.fields? = some fields ∧ fields' = f fields)
      (need failure t.fields?) (need failure' (t.mapFields f).fields?) :=
  .need fun fields hfields => ⟨f fields, by rw [Tree.fields?_mapFields, hfields, Option.map_some],
    hfields, rfl⟩

theorem field?_eq_none {k : String} (h : Fields.hasField fields k = false) :
    Fields.field? fields k = none := by
  rwa [Fields.hasField_eq, Option.isSome_eq_false_iff, Option.isNone_iff_eq_none] at h

theorem field?_response {root operation : Fields} {k : String} (hk : k ∉ ["schema", "content"]) :
    Fields.field? (response root operation fields) k = Fields.field? fields k := by
  simp only [List.mem_cons, List.not_mem_nil, or_false, not_or] at hk
  have hextra : Fields.field? ((Fields.field? fields "schema").map fun node =>
      (Scalar.text "content", content root operation "produces" node)).toList k = none := by
    cases Fields.field? fields "schema" with
    | none => rfl
    | some node => simp [Fields.field?_cons, Scalar.text?, Ne.symm hk.2]
  rw [response, Fields.field?_append, hextra, Fields.field?_without, Option.or_none]
  simp [hk.1]

theorem field?_response_content {root operation : Fields} (h : FitsResponse fields) :
    Fields.field? (response root operation fields) "content" =
      (Fields.field? fields "schema").map (content root operation "produces") := by
  rw [response, Fields.field?_append, Fields.field?_without, if_neg (by decide),
    field?_eq_none h.2, Option.none_or]
  cases Fields.field? fields "schema" with
  | none => rfl
  | some node => simp [Fields.field?_cons, Scalar.text?]

theorem refines_readResponseContent (hscope : Newer scope scope') (hfits : FitsResponse fields)
    (htypes : ∀ t ∈ typesOf scope.root node "produces", t.isWritable = true) {node' : Fields} :
    Outcome.Refines (fun c c' => Content.unplaced c' = Content.unplaced c)
      (readResponseContent scope node fields place)
      (readResponseContent scope' node' (response scope.root node fields) place') := by
  unfold readResponseContent
  rw [if_pos hscope.older, if_neg (by rw [hscope.newer]; exact Bool.false_ne_true), valueOf,
    field?_response_content hfits]
  cases Fields.field? fields "schema" with
  | none => exact .ok rfl
  | some schemaNode => exact refines_readContent hscope htypes

theorem refines_readResponse (hscope : Newer scope scope') {node' : Fields}
    {entry : Scalar × Tree} (hfits : ∀ f, entry.2.fields? = some f → FitsResponse f)
    (htypes : ∀ t ∈ typesOf scope.root node "produces", t.isWritable = true) :
    Outcome.Refines (fun r r' => Response.unplaced r' = Response.unplaced r)
      (readResponse scope node place entry)
      (readResponse scope' node' place'
        (entry.1, entry.2.mapFields (response scope.root node))) := by
  have hdirect : Direct entry.2 := fun f hf => (hfits f hf).1
  have hdirect' : Direct (entry.2.mapFields (response scope.root node)) := by
    refine hdirect.mapFields fun f => ?_
    rw [Fields.hasField_eq, field?_response (by decide), ← Fields.hasField_eq]
  refine .bind_same fun code _ => ?_
  refine .bind (refines_deref hdirect hdirect') ?_
  rintro _ _ - ⟨rfl, rfl⟩
  refine .bind (refines_fields entry.2 _) ?_
  rintro fields _ - ⟨hfields, rfl⟩
  refine .bind (refines_readResponseContent hscope (hfits fields hfields) htypes)
    fun c c' _ hc => .pure ?_
  have hdescription : textOr (response scope.root node fields) "description" =
      textOr fields "description" := by
    rw [textOr, valueOf, field?_response (by decide), textOr, valueOf]
  simp only [Response.unplaced, hc, hdescription]

/-- Values that stand for an empty map when they are falsy, rewritten one by one. -/
theorem fields?_orElse_values (inner : Tree → Tree) (t : Tree) :
    ((values inner t).orElse (.map [])).fields? =
      (t.orElse (.map [])).fields?.map fun entries => entries.map fun e => (e.1, inner e.2) := by
  cases hfields : t.fields? with
  | none =>
    have hsame : values inner t = t := Tree.mapFields_of_fields?_eq_none hfields
    rw [hsame]
    unfold Tree.orElse
    split
    · rw [hfields]
      rfl
    · rfl
  | some entries =>
    have hmap : values inner t = .map (entries.map fun e => (e.1, inner e.2)) :=
      Tree.mapFields_of_fields? hfields
    rw [hmap, fields?_orElse_map]
    unfold Tree.orElse
    split
    · rw [hfields]
      rfl
    · next hfalsy =>
      have hempty : entries = [] := by
        cases t with
        | map fields =>
          cases hfields
          simpa [Tree.isTruthy] using hfalsy
        | loop label body => exact absurd rfl hfalsy
        | _ => cases hfields
      rw [hempty]
      rfl

/-- The value of a keyword. A body is found under its own keyword only. -/
theorem field?_operation {root : Fields} {shared : Tree} {k : String} (hk : k ≠ "requestBody") :
    Fields.field? (operation root shared fields) k =
      (Fields.field? fields k).map (operationValue root fields k) := by
  have hextra : Fields.field? ((bodies shared (valueOf fields "parameters")).head?.map fun body =>
      (Scalar.text "requestBody", requestBody root fields body)).toList k = none := by
    cases (bodies shared (valueOf fields "parameters")).head? with
    | none => rfl
    | some body => simp [Fields.field?_cons, Scalar.text?, hk.symm]
  rw [operation, Fields.field?_append, hextra, Option.or_none, Fields.field?_rewrite]

theorem field?_operation_requestBody {root : Fields} {shared : Tree}
    (h : Fields.hasField fields "requestBody" = false) :
    Fields.field? (operation root shared fields) "requestBody" =
      (bodies shared (valueOf fields "parameters")).head?.map (requestBody root fields) := by
  rw [operation, Fields.field?_append, Fields.field?_rewrite, field?_eq_none h, Option.map_none,
    Option.none_or]
  cases (bodies shared (valueOf fields "parameters")).head? with
  | none => rfl
  | some body => simp [Fields.field?_cons, Scalar.text?]

theorem valueOf_operation {root : Fields} {shared : Tree} {k : String}
    (hk : k ∉ ["parameters", "responses", "requestBody"]) :
    valueOf (operation root shared fields) k = valueOf fields k := by
  simp only [List.mem_cons, List.not_mem_nil, or_false, not_or] at hk
  have hsame : operationValue root fields k = id := by
    funext value
    simp [operationValue, hk.1, hk.2.1]
  rw [valueOf, field?_operation hk.2.2, hsame, Option.map_id, id, valueOf]

theorem valueOf_operation_parameters {root : Fields} {shared : Tree} :
    valueOf (operation root shared fields) "parameters" =
      parameters (valueOf fields "parameters") := by
  rw [valueOf, field?_operation (by decide)]
  exact Option.getD_map parameters .null _

theorem valueOf_operation_responses {root : Fields} {shared : Tree} :
    valueOf (operation root shared fields) "responses" =
      values (Tree.mapFields (response root fields)) (valueOf fields "responses") := by
  rw [valueOf, field?_operation (by decide)]
  exact Option.getD_map (values (Tree.mapFields (response root fields))) .null _

theorem unplaced_responses (rs : List Response) :
    (Table.ofPairs (rs.map fun r => (r.code, r))).map (fun e => (e.1, e.2.unplaced)) =
      Table.ofPairs ((rs.map Response.unplaced).map fun r => (r.code, r)) := by
  have hmap := Table.map_ofPairs Response.unplaced (rs.map fun r => (r.code, r))
  rw [List.map_map] at hmap
  rw [List.map_map]
  exact hmap

variable {op op' : Operation} {shared : Tree}

theorem refines_addResponses (hscope : Newer scope scope')
    (hfits : FitsOperation scope.root shared node)
    (hlike : op'.unplaced = op.unplaced) :
    Outcome.Refines (fun o o' => Operation.unplaced o' = Operation.unplaced o)
      (addResponses scope node place op)
      (addResponses scope' (operation scope.root shared node) place' op') := by
  obtain ⟨-, -, hresponses, -, htypes⟩ := hfits
  have hentries : (mapOf (operation scope.root shared node) "responses").fields? =
      (mapOf node "responses").fields?.map fun entries =>
        entries.map fun e => (e.1, e.2.mapFields (response scope.root node)) := by
    rw [mapOf, valueOf_operation_responses, fields?_orElse_values]
    rfl
  refine .bind (R := fun entries entries' => (mapOf node "responses").fields? = some entries ∧
    entries' = entries.map fun e => (e.1, e.2.mapFields (response scope.root node)))
    (.need fun entries h => ⟨_, by rw [hentries, h, Option.map_some], h, rfl⟩) ?_
  rintro entries _ - ⟨hfound, rfl⟩
  have hread : Outcome.Refines (List.Forall₂ fun r r' => Response.unplaced r' = Response.unplaced r)
      (entries.mapM (readResponse scope node place))
      ((entries.map fun e => (e.1, e.2.mapFields (response scope.root node))).mapM
        (readResponse scope' (operation scope.root shared node) place')) := by
    refine .mapM_map fun e he => ?_
    refine refines_readResponse hscope (fun f hf => hresponses f ?_) (htypes _ (by simp))
    rw [responseNodes, hfound, Option.getD_some]
    exact List.mem_filterMap.mpr ⟨e, he, hf⟩
  refine .bind hread fun rs rs' _ hrs => .pure ?_
  have hall : rs'.map Response.unplaced = rs.map Response.unplaced :=
    Outcome.map_eq_of_forall₂ hrs
  have htable : ∀ (o : Operation) (rs : List Response),
      Operation.unplaced { o with responses := Table.ofPairs (rs.map fun r => (r.code, r)) } =
        { o.unplaced with
          responses := Table.ofPairs ((rs.map Response.unplaced).map fun r => (r.code, r)) } :=
    fun o rs => congrArg (fun table => { o.unplaced with responses := table })
      (unplaced_responses rs)
  rw [htable, htable, hlike, hall]

/-- The content of a declared body. -/
def readBodyContent (scope : Scope) (node : Fields) (entry : (Scalar × Scalar) × Declared) :
    Outcome Content := do
  let schema ← scope.schemas.read (mapOf entry.2.1 "schema") (entry.2.2 ++ "/schema")
  let types ← mediaTypes scope node "consumes"
  pure (sameContent schema types)

def readBody (scope : Scope) (node : Fields) (entry : (Scalar × Scalar) × Declared) :
    Outcome RequestBody :=
  (readBodyContent scope node entry).map fun content =>
    { content, required := (valueOf entry.2.1 "required").isTruthy, name := .scalar entry.1.2,
      description := textOr entry.2.1 "description" }

def readParameter (scope : Scope) (entry : (Scalar × Scalar) × Declared) : Outcome Parameter :=
  (readParameterSchema scope entry.2.1 entry.2.2).map fun schema =>
    { name := entry.1.2, place := entry.1.1, schema,
      required := (valueOf entry.2.1 "required").isTruthy || entry.1.1 == .text "path",
      description := textOr entry.2.1 "description" }

theorem bindDeclared_eq (scope : Scope) (node : Fields) (op : Operation)
    (entry : (Scalar × Scalar) × Declared) : bindDeclared scope node op entry =
      if isBodyKey entry.1 then
        (readBody scope node entry).map fun b => { op with bodies := op.bodies ++ [b] }
      else
        (readParameter scope entry).map fun p =>
          { op with parameters := op.parameters ++ [p] } := by
  unfold bindDeclared readBody readBodyContent readParameter isBodyKey
  dsimp only
  split
  · cases scope.schemas.read (mapOf entry.2.1 "schema") (entry.2.2 ++ "/schema") with
    | error e => rfl
    | ok schema => cases mediaTypes scope node "consumes" <;> rfl
  · cases readParameterSchema scope entry.2.1 entry.2.2 <;> rfl

/-- Declared parameters are bound in two groups, those in the body and the others, and the
order between the groups does not matter. -/
theorem foldlM_bindDeclared_eq_ok_iff {merged : Declarations} :
    merged.foldlM (bindDeclared scope node) op = .ok op' ↔
      ∃ ps bs, (merged.filter fun e => !isBodyKey e.1).mapM (readParameter scope) = .ok ps ∧
        (merged.filter fun e => isBodyKey e.1).mapM (readBody scope node) = .ok bs ∧
        op' = { op with parameters := op.parameters ++ ps, bodies := op.bodies ++ bs } := by
  induction merged generalizing op with
  | nil =>
    simp only [List.foldlM_nil, List.filter_nil, List.mapM_nil, Outcome.pure_eq_ok]
    constructor
    · rintro rfl
      exact ⟨[], [], rfl, rfl, by simp⟩
    · rintro ⟨_, _, rfl, rfl, rfl⟩
      simp
  | cons entry rest ih =>
    rw [List.foldlM_cons, Outcome.bind_eq_ok]
    cases hbody : isBodyKey entry.1 with
    | true =>
      have hparameters : ((entry :: rest).filter fun e => !isBodyKey e.1) =
          rest.filter fun e => !isBodyKey e.1 := by simp [hbody]
      have hbodies : ((entry :: rest).filter fun e => isBodyKey e.1) =
          entry :: rest.filter fun e => isBodyKey e.1 := by simp [hbody]
      simp only [bindDeclared_eq, hbody, if_true, Outcome.map_eq_ok, ih, hparameters, hbodies,
        List.mapM_cons, Outcome.bind_eq_ok, Outcome.pure_eq_ok]
      constructor
      · rintro ⟨_, ⟨b, hb, rfl⟩, ps, bs, hps, hbs, rfl⟩
        exact ⟨ps, b :: bs, hps, ⟨b, hb, bs, hbs, rfl⟩, by simp⟩
      · rintro ⟨ps, _, hps, ⟨b, hb, bs, hbs, rfl⟩, rfl⟩
        exact ⟨_, ⟨b, hb, rfl⟩, ps, bs, hps, hbs, by simp⟩
    | false =>
      have hparameters : ((entry :: rest).filter fun e => !isBodyKey e.1) =
          entry :: rest.filter fun e => !isBodyKey e.1 := by simp [hbody]
      have hbodies : ((entry :: rest).filter fun e => isBodyKey e.1) =
          rest.filter fun e => isBodyKey e.1 := by simp [hbody]
      simp only [bindDeclared_eq, hbody, Bool.false_eq_true, if_false, Outcome.map_eq_ok, ih,
        hparameters, hbodies, List.mapM_cons, Outcome.bind_eq_ok, Outcome.pure_eq_ok]
      constructor
      · rintro ⟨_, ⟨p, hp, rfl⟩, ps, bs, hps, hbs, rfl⟩
        exact ⟨p :: ps, bs, ⟨p, hp, ps, hps, rfl⟩, hbs, by simp⟩
      · rintro ⟨_, bs, ⟨p, hp, ps, hps, rfl⟩, hbs, rfl⟩
        exact ⟨_, ⟨p, hp, rfl⟩, ps, bs, hps, hbs, by simp⟩

theorem refines_readParameter (hscope : Newer scope scope')
    {entry entry' : (Scalar × Scalar) × Declared} (hkey : entry'.1 = entry.1)
    (hrenewed : Renewed entry.2 entry'.2)
    (hcontentless : Fields.hasField entry.2.1 "content" = false) :
    Outcome.Refines (fun p p' => Parameter.unplaced p' = Parameter.unplaced p)
      (readParameter scope entry) (readParameter scope' entry') := by
  have hvalue : ∀ k, k ∉ ["schema", "items"] →
      valueOf (parameter entry.2.1) k = valueOf entry.2.1 k := by
    intro k hk
    rw [valueOf, field?_parameter hk, valueOf]
  unfold readParameter
  rw [hkey, hrenewed]
  refine .map (refines_readParameterSchema hscope.schemas hcontentless) fun s s' hs => ?_
  simp only [Parameter.unplaced, textOr, hvalue "required" (by decide),
    hvalue "description" (by decide)]
  rw [hs]

theorem orElse_orElse (value other : Tree) : (value.orElse other).orElse other =
    value.orElse other := by
  by_cases h : value.isTruthy = true
  · simp [Tree.orElse, h]
  · simp [Tree.orElse, h]

/-- The body that is read from the newer version is the one that was declared. -/
theorem refines_readRequestBody (hscope : Newer scope scope')
    (htypes : ∀ t ∈ typesOf scope.root node "consumes", t.isWritable = true)
    (entry : (Scalar × Scalar) × Declared) :
    Outcome.Refines (fun b b' => RequestBody.unplaced b' = RequestBody.unplaced b)
      (readBody scope node entry)
      (readRequestBody scope' (requestBody scope.root node (entry.1.2, entry.2.1)) place') := by
  intro b hb
  obtain ⟨c, hc, rfl⟩ := Outcome.map_eq_ok.mp hb
  obtain ⟨c', hc', hlike⟩ : ∃ c',
      readContent scope' (content scope.root node "consumes" (mapOf entry.2.1 "schema")) place' =
        .ok c' ∧ Content.unplaced c' = Content.unplaced c :=
    refines_readContent hscope htypes c hc
  refine ⟨{ content := c', required := (valueOf entry.2.1 "required").isTruthy,
            name := .scalar entry.1.2, description := textOr entry.2.1 "description" }, ?_, ?_⟩
  · have hdirect : Direct (requestBody scope.root node (entry.1.2, entry.2.1)) := by
      rintro _ ⟨⟩
      rfl
    refine Outcome.bind_eq_ok.mpr ⟨_, deref_of_not_hasField hdirect, ?_⟩
    refine Outcome.bind_eq_ok.mpr ⟨_, rfl, ?_⟩
    refine Outcome.bind_eq_ok.mpr ⟨c', hc', Outcome.pure_eq_ok.mpr ?_⟩
    simp only [textOr, valueOf, Fields.field?_cons, Scalar.text?, Option.some.injEq,
      String.reduceEq, if_true, if_false, Option.getD_some, orElse_orElse]
    rfl
  · simp only [RequestBody.unplaced, hlike]

variable {merged merged' : Declarations} {found : Table Scalar Fields}

theorem Split.not_body (h : Split merged merged' found) : ∀ e ∈ merged', isBodyKey e.1 = false := by
  have hkeys : merged'.map Prod.fst = (merged.filter fun e => !isBodyKey e.1).map Prod.fst :=
    Outcome.map_eq_of_forall₂ (h.parameters.imp fun _ _ he => he.1)
  intro e he
  have hkey : e.1 ∈ (merged.filter fun e => !isBodyKey e.1).map Prod.fst :=
    hkeys ▸ List.mem_map_of_mem he
  obtain ⟨e', he', hsame⟩ := List.mem_map.mp hkey
  simpa [hsame] using (List.mem_filter.mp he').2

/-- The parameters are bound as before, and the bodies not at all. -/
theorem refines_bindDeclared (hscope : Newer scope scope') (h : Split merged merged' found)
    (node' : Fields) (op : Operation) :
    Outcome.Refines
      (fun o o' => ∃ ps ps' bs, ps'.map Parameter.unplaced = ps.map Parameter.unplaced ∧
        (merged.filter fun e => isBodyKey e.1).mapM (readBody scope node) = .ok bs ∧
        o = { op with parameters := op.parameters ++ ps, bodies := op.bodies ++ bs } ∧
        o' = { op with parameters := op.parameters ++ ps' })
      (merged.foldlM (bindDeclared scope node) op)
      (merged'.foldlM (bindDeclared scope' node') op) := by
  intro o ho
  obtain ⟨ps, bs, hps, hbs, rfl⟩ := foldlM_bindDeclared_eq_ok_iff.mp ho
  have hread : Outcome.Refines (List.Forall₂ fun p p' => Parameter.unplaced p' = p.unplaced)
      ((merged.filter fun e => !isBodyKey e.1).mapM (readParameter scope))
      (merged'.mapM (readParameter scope')) := by
    refine .mapM h.parameters fun e he e' hee' => ?_
    have hvalue : e.2 ∈ Table.values merged :=
      Table.mem_values.mpr ⟨e, (List.mem_filter.mp he).1, rfl⟩
    exact refines_readParameter hscope hee'.1 hee'.2 (h.contentless _ hvalue)
  obtain ⟨ps', hps', hall⟩ := hread ps hps
  have hparameters : (merged'.filter fun e => !isBodyKey e.1) = merged' :=
    List.filter_eq_self.mpr fun e he => by rw [h.not_body e he]; rfl
  have hbodies : (merged'.filter fun e => isBodyKey e.1) = [] :=
    List.filter_eq_nil_iff.mpr fun e he => by rw [h.not_body e he]; exact Bool.false_ne_true
  refine ⟨_, foldlM_bindDeclared_eq_ok_iff.mpr ⟨ps', [], ?_, ?_, rfl⟩, ps, ps', bs,
    Outcome.map_eq_of_forall₂ hall, hbs, rfl, ?_⟩
  · rw [hparameters, hps']
  · rw [hbodies]
    rfl
  · rw [List.append_nil]

/-- At most one body is read, from the only declared one. -/
theorem refines_addRequestBody (hscope : Newer scope scope')
    (hfits : FitsOperation scope.root shared node)
    (h : Split merged merged' (bodies shared (valueOf node "parameters")))
    {ps ps' : List Parameter} (hps : ps'.map Parameter.unplaced = ps.map Parameter.unplaced)
    {bs : List RequestBody}
    (hbs : (merged.filter fun e => isBodyKey e.1).mapM (readBody scope node) = .ok bs)
    (start : Operation) :
    Outcome.Refines (fun o o' => Operation.unplaced o' = Operation.unplaced o)
      (addRequestBody scope node place { start with parameters := ps, bodies := bs })
      (addRequestBody scope' (operation scope.root shared node) place'
        { start with parameters := ps', bodies := [] }) := by
  obtain ⟨hnone, -, -, hsingle, htypes⟩ := hfits
  have hfound : Fields.field? (operation scope.root shared node) "requestBody" =
      (bodies shared (valueOf node "parameters")).head?.map (requestBody scope.root node) :=
    field?_operation_requestBody hnone
  rw [← h.bodies] at hfound hsingle
  unfold addRequestBody
  rw [field?_eq_none hnone, hfound]
  cases hfilter : merged.filter fun e => isBodyKey e.1 with
  | nil =>
    rw [hfilter, List.mapM_nil, Outcome.pure_eq_ok] at hbs
    subst hbs
    refine .ok ?_
    simp only [Operation.unplaced, hps]
  | cons entry rest =>
    rw [hfilter, List.map_cons, List.length_cons, List.length_map] at hsingle
    have hrest : rest = [] := List.length_eq_zero_iff.mp (by omega)
    subst hrest
    simp only [hfilter, List.mapM_cons, List.mapM_nil, Outcome.bind_eq_ok,
      Outcome.pure_eq_ok] at hbs
    obtain ⟨b, hb, _, rfl, rfl⟩ := hbs
    obtain ⟨b', hb', hlike⟩ : ∃ b',
        readRequestBody scope' (requestBody scope.root node (entry.1.2, entry.2.1))
          (place' ++ "/requestBody") = .ok b' ∧ b'.unplaced = b.unplaced :=
      refines_readRequestBody hscope (htypes _ (by simp)) entry b hb
    rintro _ ⟨⟩
    refine ⟨_, Outcome.bind_eq_ok.mpr ⟨b', hb', rfl⟩, ?_⟩
    simp only [Operation.unplaced, hps, List.nil_append, List.map_singleton, hlike]

def isExtension (key : String) : Bool := ['x', '-'].isPrefixOf key.toList

theorem readExtensions_cons (entry : Scalar × Tree) (rest : Fields) :
    readExtensions (entry :: rest) = (do
      let key ← need .illTyped entry.1.text?
      let others ← readExtensions rest
      pure (if isExtension key then (key, entry.2) :: others else others)) := by
  unfold readExtensions
  rw [List.mapM_cons]
  cases entry.1.text? with
  | none => rfl
  | some key =>
    cases rest.mapM fun e => (do let key ← need .illTyped e.1.text?; pure (key, e.2)) with
    | error e => rfl
    | ok keyed =>
      show Except.ok (((key, entry.2) :: keyed).filter fun e => isExtension e.1) = _
      rw [List.filter_cons]
      rfl

/-- Extensions are kept when only the values of other keywords are rewritten. -/
theorem refines_readExtensions {f : String → Tree → Tree} {others : Fields}
    (hf : ∀ key value, isExtension key = true → f key value = value)
    (hothers : readExtensions others = .ok []) :
    Outcome.Refines Eq (readExtensions node)
      (readExtensions (Fields.rewrite f node ++ others)) := by
  induction node with
  | nil =>
    show Outcome.Refines Eq (readExtensions []) (readExtensions others)
    rw [hothers]
    exact .same _
  | cons entry rest ih =>
    have hcons : Fields.rewrite f (entry :: rest) ++ others =
        (entry.1, Fields.rewritten f entry) :: (Fields.rewrite f rest ++ others) := rfl
    rw [hcons, readExtensions_cons, readExtensions_cons]
    refine .bind_same fun key hkey => ?_
    rw [Outcome.need_eq_ok] at hkey
    refine .bind ih ?_
    rintro extensions _ - rfl
    refine .pure ?_
    by_cases hextension : isExtension key = true
    · simp [Fields.rewritten_of_text? hkey, hf key entry.2 hextension]
    · simp [hextension]

theorem refines_operation_extensions {root : Fields} :
    Outcome.Refines Eq (readExtensions node) (readExtensions (operation root shared node)) := by
  refine refines_readExtensions ?_ ?_
  · intro key value hkey
    have hparameters : key ≠ "parameters" := by
      rintro rfl
      exact absurd hkey (by decide)
    have hresponses : key ≠ "responses" := by
      rintro rfl
      exact absurd hkey (by decide)
    simp [operationValue, hparameters, hresponses]
  · cases (bodies shared (valueOf node "parameters")).head? with
    | none => rfl
    | some body =>
      rw [Option.map_some, Option.toList_some, readExtensions_cons]
      rfl

theorem pathParameterNames_eq (op : Operation) : pathParameterNames op =
    (op.unplaced.parameters.filter fun p => p.place == .text "path").map Parameter.name := by
  simp only [pathParameterNames, Operation.unplaced, List.filter_map, List.map_map]
  rfl

theorem checkPathParameters_congr (h : op'.unplaced = op.unplaced) :
    checkPathParameters op' place = checkPathParameters op place := by
  have hpath : op'.unplaced.path = op.unplaced.path := congrArg Operation.path h
  have hmethod : op'.unplaced.method = op.unplaced.method := congrArg Operation.method h
  change op'.path = op.path at hpath
  change op'.method = op.method at hmethod
  have hnames : pathParameterNames op' = pathParameterNames op := by
    rw [pathParameterNames_eq, pathParameterNames_eq, h]
  have hlabel : op'.label = op.label := by
    rw [Operation.label, Operation.label, hpath, hmethod]
  unfold checkPathParameters
  rw [hpath, hnames, hlabel]

theorem refines_readOperation (hscope : Newer scope scope') {value : Tree} {path method : String}
    (hshared : ∀ p ∈ parameterNodes shared, FitsParameter p)
    (hfits : ∀ node, value.fields? = some node → FitsOperation scope.root shared node) :
    Outcome.Refines (fun o o' => Operation.unplaced o' = Operation.unplaced o)
      (readOperation scope path method value shared)
      (readOperation scope' path method (value.mapFields (operation scope.root shared))
        (parameters shared)) := by
  refine .bind (refines_fields value _) ?_
  rintro node _ - ⟨hnode, rfl⟩
  have hfits := hfits node hnode
  have htext : ∀ k, k ∉ ["parameters", "responses", "requestBody"] →
      textOr (operation scope.root shared node) k = textOr node k := by
    intro k hk
    rw [textOr, valueOf_operation hk, textOr]
  rw [valueOf_operation (by decide), valueOf_operation (by decide), htext "summary" (by decide),
    htext "description" (by decide)]
  refine .bind_same fun tags _ => ?_
  refine .bind refines_operation_extensions ?_
  rintro extensions _ - rfl
  rw [valueOf_operation_parameters]
  refine .bind (refines_mergeParameters hshared hfits.2.1) fun merged merged' _ hmerged => ?_
  refine .bind (refines_bindDeclared hscope hmerged _ _) ?_
  rintro _ _ - ⟨ps, ps', bs, hps, hbs, rfl, rfl⟩
  refine .bind (refines_addRequestBody hscope hfits hmerged hps hbs _) fun o o' _ ho => ?_
  refine .bind (refines_addResponses hscope hfits ho) fun op op' _ hop => ?_
  rw [checkPathParameters_congr hop]
  exact .bind_same fun _ _ => .pure hop

end ContractReader

end ApiContract
