import ApiContract.Proofs.Contract.UpgradedOperations

/-! # Own parameters override shared ones

An operation has the shared parameters of its path item and its own ones, each place and name
once, where it first came, with the declaration that came last. Those in the body become
request bodies and the others parameters, and both keep the order. Declaring a place and a
name twice is a fault of an operation only among its own parameters.
-/
namespace ApiContract.ContractReader

variable {scope : Scope} {path method : String} {value shared : Tree} {S O merged : Declarations}
  {d : (Scalar × Scalar) × Declared} {node : Fields} {op : Operation}

instance : EquivBEq (Scalar × Scalar) where
  rfl {k} := Bool.and_eq_true_iff.mpr ⟨BEq.rfl (a := k.1), BEq.rfl (a := k.2)⟩
  symm h := by
    obtain ⟨hplace, hname⟩ := Bool.and_eq_true_iff.mp h
    exact Bool.and_eq_true_iff.mpr ⟨BEq.symm hplace, BEq.symm hname⟩
  trans h h' := by
    obtain ⟨hplace, hname⟩ := Bool.and_eq_true_iff.mp h
    obtain ⟨hplace', hname'⟩ := Bool.and_eq_true_iff.mp h'
    exact Bool.and_eq_true_iff.mpr ⟨BEq.trans hplace hplace', BEq.trans hname hname'⟩

/-- The declarations of two lists in one table: a key stands where it first came, with the
declaration that came last. -/
structure Overrides (S O merged : Declarations) : Prop where
  keys : Table.keys merged = (Table.keys (S ++ O)).eraseDups
  last : ∀ e ∈ merged, Table.get? (S ++ O).reverse e.1 = some e.2

theorem overrides_ofPairs (S O : Declarations) : Overrides S O (Table.ofPairs (S ++ O)) where
  keys := Table.keys_ofPairs _
  last _ he := Table.get?_reverse_of_mem_ofPairs he

/-- The body that an operation declares apart from its parameters. -/
def requestBodies (scope : Scope) (node : Fields) (location : String) :
    Outcome (List RequestBody) :=
  match Fields.field? node "requestBody" with
  | none => .ok []
  | some value =>
    (readRequestBody scope value (location ++ "/requestBody")).map fun body => [body]

/-- The parameters and the bodies of an operation that come of declarations, those in the
body apart from the others, in their order. -/
structure Binds (scope : Scope) (node : Fields) (location : String) (merged : Declarations)
    (op : Operation) : Prop where
  parameters : (merged.filter fun e => !isBodyKey e.1).mapM (readParameter scope) =
    .ok op.parameters
  keys : op.parameters.map keyOfParameter = (Table.keys merged).filter fun k => !isBodyKey k
  bodies : ∃ declared requested,
    (merged.filter fun e => isBodyKey e.1).mapM (readBody scope node) = .ok declared ∧
      declared.map RequestBody.name =
        ((Table.keys merged).filter isBodyKey).map (fun k => Tree.scalar k.2) ∧
      requestBodies scope node location = .ok requested ∧ op.bodies = declared ++ requested

theorem keys_of_readParameter {parameters : List Parameter}
    (h : merged.mapM (readParameter scope) = .ok parameters) :
    parameters.map keyOfParameter = Table.keys merged := by
  refine Outcome.map_of_mapM (fun e p hp => ?_) h
  obtain ⟨schema, -, rfl⟩ := Outcome.map_eq_ok.mp hp
  rfl

theorem names_of_readBody {bodies : List RequestBody}
    (h : merged.mapM (readBody scope node) = .ok bodies) :
    bodies.map RequestBody.name = (Table.keys merged).map fun k => Tree.scalar k.2 := by
  rw [Table.keys, List.map_map]
  refine Outcome.map_of_mapM (fun e b hb => ?_) h
  obtain ⟨content, -, rfl⟩ := Outcome.map_eq_ok.mp hb
  rfl

theorem keys_filter (p : Scalar × Scalar → Bool) (merged : Declarations) :
    Table.keys (merged.filter fun e => p e.1) = (Table.keys merged).filter p := by
  rw [Table.keys, Table.keys, List.filter_map]
  rfl

theorem requestBodies_of_addRequestBody {location : String} {op' : Operation}
    (h : addRequestBody scope node location op = .ok op') :
    ∃ requested, requestBodies scope node location = .ok requested ∧
      op' = { op with bodies := op.bodies ++ requested } := by
  unfold addRequestBody at h
  unfold requestBodies
  cases hrequest : Fields.field? node "requestBody" with
  | none =>
    rw [hrequest] at h
    cases h
    exact ⟨[], rfl, by rw [List.append_nil]⟩
  | some request =>
    rw [hrequest] at h
    obtain ⟨body, hbody, h⟩ := Outcome.bind_eq_ok.mp h
    cases h
    exact ⟨[body], Outcome.map_eq_ok.mpr ⟨body, hbody, rfl⟩, rfl⟩

/-- The declarations that an operation is read from are its parameters and its bodies. -/
theorem binds_of_readMerged {location : String} {start : Operation}
    (hparameters : start.parameters = []) (hbodies : start.bodies = [])
    (h : readMerged scope node location start merged = .ok op) :
    Binds scope node location merged op := by
  obtain ⟨declared, hdeclared, h⟩ := Outcome.bind_eq_ok.mp h
  obtain ⟨withBody, hadded, h⟩ := Outcome.bind_eq_ok.mp h
  obtain ⟨complete, hcomplete, h⟩ := Outcome.bind_eq_ok.mp h
  obtain ⟨⟨⟩, -, h⟩ := Outcome.bind_eq_ok.mp h
  cases h
  obtain ⟨responses, rfl⟩ := addResponses_eq_ok hcomplete
  obtain ⟨requested, hrequested, rfl⟩ := requestBodies_of_addRequestBody hadded
  obtain ⟨ps, bs, hps, hbs, rfl⟩ := foldlM_bindDeclared_eq_ok_iff.mp hdeclared
  have hkeys := keys_of_readParameter hps
  have hnames := names_of_readBody hbs
  rw [keys_filter (fun k => !isBodyKey k)] at hkeys
  rw [keys_filter isBodyKey] at hnames
  exact
    { parameters := by rw [hps, hparameters, List.nil_append]
      keys := by rw [hparameters, List.nil_append, hkeys]
      bodies := ⟨bs, requested, hbs, hnames, hrequested, by rw [hbodies, List.nil_append]⟩ }

/-- The stages before the parameters of an operation are merged have passed. -/
structure Begun (value : Tree) (node : Fields) : Prop where
  object : value.fields? = some node
  tags : Outcome.Succeeds (optionalMembers (valueOf node "tags"))
  extensions : Outcome.Succeeds (readExtensions node)

abbrev ListsShared (scope : Scope) (path : String) (shared : Tree) (S : Declarations) : Prop :=
  Lists (DeclaresAt scope.document (Pointer.ofTokens ["paths", path])) shared S

abbrev ListsOwn (scope : Scope) (path method : String) (node : Fields) (O : Declarations) : Prop :=
  Lists (DeclaresOwn scope.document (Pointer.ofTokens ["paths", path, method]))
    (valueOf node "parameters") O

abbrev BeginsOwn (scope : Scope) (path method : String) (node : Fields) (O : Declarations) :
    Prop :=
  Begins (DeclaresOwn scope.document (Pointer.ofTokens ["paths", path, method]))
    (valueOf node "parameters") O

/-- The fault of an operation at an own parameter that repeats one before it. -/
def repetitionIn (path method : String) (d : (Scalar × Scalar) × Declared) : Failure :=
  repetition (method.toUpper ++ " " ++ path) d

theorem readOperation_of_repeats (hbegun : Begun value node)
    (hS : ListsShared scope path shared S) (hO : BeginsOwn scope path method node (O ++ [d]))
    (h : Repeats O d) :
    readOperation scope path method value shared = .error (repetitionIn path method d) := by
  obtain ⟨hobject, ⟨tags, htags⟩, ⟨extensions, hextensions⟩⟩ := hbegun
  refine Outcome.bind_eq_error.mpr (.inr ⟨node, Outcome.need_eq_ok.mpr hobject, ?_⟩)
  refine Outcome.bind_eq_error.mpr (.inr ⟨tags, htags, ?_⟩)
  refine Outcome.bind_eq_error.mpr (.inr ⟨extensions, hextensions, ?_⟩)
  exact Outcome.bind_eq_error.mpr (.inl (mergeParameters_of_repeats hS hO h))

theorem repeats_of_readOperation {e : Failure}
    (h : readOperation scope path method value shared = .error e) (he : e.isRepetition = true) :
    ∃ node S O d, Begun value node ∧ ListsShared scope path shared S ∧
      BeginsOwn scope path method node (O ++ [d]) ∧ Repeats O d ∧
      e = repetitionIn path method d := by
  rcases Outcome.bind_eq_error.mp h with h | ⟨node, hnode, h⟩
  · obtain ⟨-, rfl⟩ := Outcome.need_eq_error.mp h
    cases he
  rcases Outcome.bind_eq_error.mp h with h | ⟨tags, htags, h⟩
  · exact absurd h ((unrepeated_optionalMembers _).ne_error he)
  rcases Outcome.bind_eq_error.mp h with h | ⟨extensions, hextensions, h⟩
  · exact absurd h ((unrepeated_readExtensions _).ne_error he)
  rcases Outcome.bind_eq_error.mp h with h | ⟨merged, -, h⟩
  · obtain ⟨S, O, d, hS, hO, hrepeats, rfl⟩ := exists_repeats_of_mergeParameters h he
    exact ⟨node, S, O, d, ⟨Outcome.need_eq_ok.mp hnode, ⟨tags, htags⟩, ⟨extensions, hextensions⟩⟩,
      hS, hO, hrepeats, rfl⟩
  · exact absurd h ((unrepeated_readMerged scope _ _ _ _).ne_error he)

theorem overrides_of_readOperation
    (h : readOperation scope path method value shared = .ok op) :
    ∃ node S O merged, Begun value node ∧ ListsShared scope path shared S ∧
      ListsOwn scope path method node O ∧ Table.KeysApart O ∧ Overrides S O merged ∧
      Binds scope node (Pointer.ofTokens ["paths", path, method]) merged op := by
  obtain ⟨node, hnode, h⟩ := Outcome.bind_eq_ok.mp h
  obtain ⟨tags, htags, h⟩ := Outcome.bind_eq_ok.mp h
  obtain ⟨extensions, hextensions, h⟩ := Outcome.bind_eq_ok.mp h
  obtain ⟨merged, hmerged, h⟩ := Outcome.bind_eq_ok.mp h
  obtain ⟨S, O, hS, hO, hapart, rfl⟩ := mergeParameters_eq_ok_iff.mp hmerged
  exact ⟨node, S, O, _, ⟨Outcome.need_eq_ok.mp hnode, ⟨tags, htags⟩, ⟨extensions, hextensions⟩⟩,
    hS, hO, hapart, overrides_ofPairs S O, binds_of_readMerged rfl rfl h⟩

/-- An operation that is read has the shared parameters of its path item and its own ones, each
key once, where it first came, with the declaration that came last; those in the body are its
first bodies, and the others are its parameters, in their order. It is refused over a parameter
that is declared twice exactly when its own parameters repeat a key, at the first of them that
does so. Where some own parameter declares nothing, those before it decide. -/
theorem parameters_of_readOperation (scope : Scope) (path method : String)
    (value shared : Tree) :
    (∀ op, readOperation scope path method value shared = .ok op →
      ∃ node S O merged, Begun value node ∧ ListsShared scope path shared S ∧
        ListsOwn scope path method node O ∧ Table.KeysApart O ∧ Overrides S O merged ∧
        Binds scope node (Pointer.ofTokens ["paths", path, method]) merged op) ∧
    (∀ node S O, Begun value node → ListsShared scope path shared S →
      ListsOwn scope path method node O →
      (¬Table.KeysApart O → ∃ before d after, O = before ++ d :: after ∧ Repeats before d ∧
        readOperation scope path method value shared = .error (repetitionIn path method d)) ∧
      ((∀ d ∈ O, d.1.1.isWritable = true ∧ d.1.2.isWritable = true) →
        ((∃ place name label location, readOperation scope path method value shared =
            .error (.contract (.duplicateParameter place name label) location)) ↔
          ¬Table.KeysApart O))) ∧
    ∀ place name label location, readOperation scope path method value shared =
        .error (.contract (.duplicateParameter place name label) location) →
      ∃ node S O d, Begun value node ∧ ListsShared scope path shared S ∧
        BeginsOwn scope path method node (O ++ [d]) ∧ Repeats O d ∧ d.1 = (place, name) ∧
        label = method.toUpper ++ " " ++ path ∧ location = d.2.2 := by
  refine ⟨fun op => overrides_of_readOperation, ?_, ?_⟩
  · intro node S O hbegun hS hO
    have hrefused : ¬Table.KeysApart O →
        ∃ before d after, O = before ++ d :: after ∧ Repeats before d ∧
          readOperation scope path method value shared = .error (repetitionIn path method d) := by
      intro hrepeated
      obtain ⟨before, d, after, rfl, hrepeats⟩ := exists_repeats hrepeated
      rw [List.append_cons] at hO
      exact ⟨before, d, after, rfl, hrepeats,
        readOperation_of_repeats hbegun hS (begins_of_lists hO) hrepeats⟩
    refine ⟨hrefused, fun hwritable => ⟨?_, fun hrepeated => ?_⟩⟩
    · rintro ⟨place, name, label, location, h⟩ hapart
      obtain ⟨node', -, O', d, hbegun', -, hbegins, hrepeats, -⟩ := repeats_of_readOperation h rfl
      cases hbegun.object.symm.trans hbegun'.object
      obtain ⟨after, rfl⟩ := prefix_of_begins hbegins hO
      rw [← List.append_cons] at hapart
      exact hrepeats.not_keysApart after hapart
    · obtain ⟨before, d, after, rfl, -, h⟩ := hrefused hrepeated
      obtain ⟨hplace, hname⟩ := hwritable d (by simp)
      rw [repetitionIn, repetition_of_writable hplace hname] at h
      exact ⟨_, _, _, _, h⟩
  · intro place name label location h
    obtain ⟨node, S, O, d, hbegun, hS, hbegins, hrepeats, he⟩ := repeats_of_readOperation h rfl
    obtain ⟨hkey, hlabel, hplace⟩ := repetition_eq_contract he.symm
    exact ⟨node, S, O, d, hbegun, hS, hbegins, hrepeats, hkey, hlabel, hplace⟩

/-- The place, the name and the operation of a parameter that a failure finds twice. -/
def repeated? : Failure → Option (String × String × String)
  | .contract (.duplicateParameter (.text place) (.text name) label) _ =>
    some (place, name, label)
  | _ => none

theorem repeated?_eq_some {failure : Failure} {place name label : String}
    (h : repeated? failure = some (place, name, label)) : ∃ location,
      failure = .contract (.duplicateParameter (.text place) (.text name) label) location := by
  unfold repeated? at h
  split at h
  · cases h
    exact ⟨_, rfl⟩
  · cases h

/-- A document with a parameter that is referred to. -/
def limitsScope : Scope :=
  let root : Fields := [(.text "parameters", .map [(.text "limit", .map [
    (.text "name", .text "limit"), (.text "in", .text "query"),
    (.text "description", .text "shared")])])]
  { document := .map root, root, schemas := { start := "#/definitions/", components := [] } }

def sharedLimits : Tree := .list [
  .map [(.text "$ref", .text "#/parameters/limit")],
  .map [(.text "name", .text "pet"), (.text "in", .text "body")],
  .map [(.text "name", .text "trace"), (.text "in", .text "header")]]

/-- An operation with own parameters of the given names in the query. -/
def limitsOperation (names : List String) : Tree := .map [(.text "parameters", .list
  (names.map fun name => .map [(.text "name", .text name), (.text "in", .text "query"),
    (.text "description", .text "own")]))]

theorem parameters_of_readOperation_limits :
    (∃ op, readOperation limitsScope "/pets" "get" (limitsOperation ["sort", "limit"])
        sharedLimits = .ok op ∧
      op.parameters.map (fun p => (p.name.text?, p.description.text?)) =
        [(some "limit", some "own"), (some "trace", some ""), (some "sort", some "own")] ∧
      op.bodies.map (fun b => b.name.text?) = [some "pet"] ∧
      ∃ node S O merged, ListsShared limitsScope "/pets" sharedLimits S ∧
        ListsOwn limitsScope "/pets" "get" node O ∧ Overrides S O merged ∧
        Binds limitsScope node (Pointer.ofTokens ["paths", "/pets", "get"]) merged op) ∧
    ∃ location, readOperation limitsScope "/pets" "get" (limitsOperation ["limit", "sort", "limit"])
        sharedLimits =
          .error (.contract (.duplicateParameter (.text "query") (.text "limit") "GET /pets")
            location) ∧
      ∃ node O d, BeginsOwn limitsScope "/pets" "get" node (O ++ [d]) ∧ Repeats O d := by
  constructor
  · obtain ⟨op, h, hop⟩ := Outcome.exists_of_map_toOption
      (o := readOperation limitsScope "/pets" "get" (limitsOperation ["sort", "limit"])
        sharedLimits)
      (f := fun op => (op.parameters.map (fun p => (p.name.text?, p.description.text?)),
        op.bodies.map fun b => b.name.text?))
      (b := ([(some "limit", some "own"), (some "trace", some ""), (some "sort", some "own")],
        [some "pet"])) (by decide +kernel)
    obtain ⟨hparameters, hbodies⟩ := Prod.mk.inj hop
    obtain ⟨node, S, O, merged, -, hS, hO, -, hoverrides, hbinds⟩ :=
      (parameters_of_readOperation _ _ _ _ _).1 op h
    exact ⟨op, h, hparameters, hbodies, node, S, O, merged, hS, hO, hoverrides, hbinds⟩
  · have hrefused : (Outcome.failure? (readOperation limitsScope "/pets" "get"
        (limitsOperation ["limit", "sort", "limit"]) sharedLimits)).bind repeated? =
          some ("query", "limit", "GET /pets") := by
      decide +kernel
    obtain ⟨failure, h, hrepeated⟩ := Option.bind_eq_some_iff.mp hrefused
    obtain ⟨location, rfl⟩ := repeated?_eq_some hrepeated
    rw [Outcome.failure?_eq_some] at h
    obtain ⟨node, S, O, d, -, -, hbegins, hrepeats, -⟩ :=
      (parameters_of_readOperation _ _ _ _ _).2.2 _ _ _ _ h
    exact ⟨_, h, node, O, d, hbegins, hrepeats⟩

end ApiContract.ContractReader
