import Mathlib.Data.List.Infix
import ApiContract.Proofs.Contract.Labels
import ApiContract.Proofs.Endpoint.Groups
import ApiContract.Proofs.Path.Segments

/-! # The paths of resources

The path of a resource is the longest leading static path that the templates of its
operations share, cut to one segment unless one of them is hinted. What a template adds to
it is found by counting characters, and still the segments of the two are those of the
template, so that every endpoint is reached where the contract has it, and no two at the
same place.
-/
namespace ApiContract.Grouping

open ApiContract.Path

variable {settings : Settings}

theorem prefix_commonStart_iff {m a b : List String} :
    m <+: commonStart a b ↔ m <+: a ∧ m <+: b := by
  induction a generalizing m b with
  | nil =>
    simp only [commonStart, List.prefix_nil, iff_self_and]
    rintro rfl
    exact List.nil_prefix
  | cons x a ih =>
    cases m with
    | nil => simp
    | cons z m =>
      cases b with
      | nil => simp [commonStart]
      | cons y b =>
        simp only [commonStart]
        split
        · next hxy =>
          simp only [List.cons_prefix_cons, ih, hxy]
          tauto
        · next hxy =>
          simp only [List.prefix_nil, List.cons_prefix_cons, reduceCtorEq, false_iff]
          rintro ⟨⟨rfl, -⟩, rfl, -⟩
          exact hxy rfl

/-- The shared start is the longest: what all lists start with it starts with. -/
theorem prefix_sharedStart_iff {m : List String} {lists : List (List String)} (hl : lists ≠ []) :
    m <+: sharedStart lists ↔ ∀ l ∈ lists, m <+: l := by
  obtain ⟨first, rest, rfl⟩ := List.exists_cons_of_ne_nil hl
  have hfold : ∀ start, m <+: rest.foldl commonStart start ↔ m <+: start ∧ ∀ l ∈ rest, m <+: l := by
    induction rest with
    | nil => simp
    | cons second rest ih =>
      intro start
      rw [List.foldl_cons, ih (by simp), prefix_commonStart_iff, List.forall_mem_cons, and_assoc]
  rw [sharedStart, hfold, List.forall_mem_cons]

theorem resourcePath_eq (settings : Settings) (ops : List Operation) :
    resourcePath settings ops = "/" ++ "/".intercalate
      (if ops.any (isHinted settings) then sharedStart (ops.map fun op => leadingStatic op.path)
        else (sharedStart (ops.map fun op => leadingStatic op.path)).take 1) := by
  unfold resourcePath
  dsimp only

theorem toList_path (kept : List String) :
    ("/" ++ "/".intercalate kept).toList = pathOf (kept.map String.toList) := by
  cases kept with
  | nil => rfl
  | cons first rest =>
    have hjoin : ∀ f : List Char, '/' :: ['/'].intercalate (f :: rest.map String.toList) =
        rooted (f :: rest.map String.toList) := by
      induction rest with
      | nil => simp [List.intercalate]
      | cons second rest ih =>
        intro f
        rw [List.map_cons, List.intercalate_cons_cons, rooted_cons, ← ih]
        simp
    simpa using hjoin first.toList

theorem eq_root_iff {path : String} {kept : List (List Char)} (hkept : Proper kept)
    (hpath : path.toList = pathOf kept) : path = "/" ↔ kept = [] := by
  rw [← hkept.pathOf_eq_iff, ← hpath, ← String.toList_inj]
  rfl

/-- What a template adds to its first segments is the others. -/
theorem toList_relativePath {template path : String} {kept rest : List (List Char)}
    (ht : Regular template) (hcut : segmentChars template.toList = kept ++ rest)
    (hpath : path.toList = pathOf kept) : (relativePath template path).toList = rooted rest := by
  obtain ⟨n, htemplate⟩ := ht.toList
  have hproper := proper_segmentChars template.toList
  rw [hcut] at htemplate hproper
  obtain ⟨hkept, hrest⟩ := Proper.append_iff.mp hproper
  have hroot := eq_root_iff hkept hpath
  have hrelative : dropSlashes
      (if path = "/" then template.toList else template.toList.drop path.length) = rooted rest := by
    cases kept with
    | nil =>
      rw [if_pos (hroot.mpr rfl), htemplate, dropSlashes_append_slashes, List.nil_append,
        dropSlashes_rooted hrest]
    | cons s others =>
      have hlength : path.length = (rooted (s :: others)).length := by
        rw [← String.length_toList, hpath, pathOf_cons]
      rw [if_neg (fun h => by cases hroot.mp h), htemplate, hlength, rooted_append,
        List.append_assoc, List.drop_left, dropSlashes_append_slashes, dropSlashes_rooted hrest]
  unfold relativePath
  simp only [hrelative, String.toList_ofList]
  cases rest with
  | nil => rfl
  | cons s others =>
    rw [rooted_cons]
    rfl

/-- Where an endpoint is served; a resource at the root adds no slash of its own. -/
def fullPath (resource : Resource) (e : Endpoint) : String :=
  (if resource.path = "/" then "" else resource.path) ++ e.relativePath

/-- The path of a resource and those of its endpoints are found from the templates. -/
structure Placed (settings : Settings) (resource : Resource) : Prop where
  occupied : resource.operations ≠ []
  path : resource.path = resourcePath settings resource.operations
  relative : ∀ e ∈ resource.endpoints,
    e.relativePath = relativePath e.operation.path resource.path

theorem isPrefix_leadingStatic {ops : List Operation} {op : Operation} (h : op ∈ ops) :
    sharedStart (ops.map fun op => leadingStatic op.path) <+: leadingStatic op.path := by
  have hne : ops.map (fun op => leadingStatic op.path) ≠ [] := by
    simpa using List.ne_nil_of_mem h
  exact (prefix_sharedStart_iff hne).mp List.prefix_rfl _ (List.mem_map_of_mem h)

theorem leadingStatic_isPrefix (template : String) :
    (leadingStatic template).map String.toList <+: segmentChars template.toList := by
  have hchars : (leadingStatic template).map String.toList =
      (segmentChars template.toList).takeWhile fun s => !opensBrace s := by
    simp [leadingStatic, List.map_map, Function.comp_def]
  exact hchars ▸ List.takeWhile_prefix _

/-- The segments of the path of a resource begin the template of each of its operations. -/
theorem exists_segments (settings : Settings) {ops : List Operation} {op : Operation}
    (h : op ∈ ops) :
    ∃ kept rest, (resourcePath settings ops).toList = pathOf kept ∧
      segmentChars op.path.toList = kept ++ rest := by
  have hshared := (isPrefix_leadingStatic h).map String.toList
  have hwhole := hshared.trans (leadingStatic_isPrefix op.path)
  rw [resourcePath_eq, toList_path]
  split
  · obtain ⟨rest, hrest⟩ := hwhole
    exact ⟨_, rest, rfl, hrest.symm⟩
  · have hfirst := ((List.take_prefix 1 _).map String.toList).trans hwhole
    obtain ⟨rest, hrest⟩ := hfirst
    exact ⟨_, rest, rfl, hrest.symm⟩

/-- An endpoint has the segments and the shape of its template. -/
theorem Placed.served {resource : Resource} (h : Placed settings resource) {e : Endpoint}
    (he : e ∈ resource.endpoints) (ht : Regular e.operation.path) :
    segmentChars resource.path.toList ++ segmentChars e.relativePath.toList =
        segmentChars e.operation.path.toList ∧
      shape (fullPath resource e) = shape e.operation.path := by
  have hop : e.operation ∈ resource.operations := List.mem_map_of_mem he
  obtain ⟨kept, rest, hpath, hcut⟩ := exists_segments settings hop
  rw [← h.path] at hpath
  have hrelative := toList_relativePath ht hcut hpath
  rw [← h.relative e he] at hrelative
  have hproper := proper_segmentChars e.operation.path.toList
  rw [hcut] at hproper
  obtain ⟨hkept, hrest⟩ := Proper.append_iff.mp hproper
  constructor
  · rw [hpath, hrelative, hcut, segmentChars_pathOf hkept]
    simpa [slashes] using segmentChars_rooted hrest 0
  · have hfull : (fullPath resource e).toList = rooted (kept ++ rest) := by
      have hroot := eq_root_iff hkept hpath
      unfold fullPath
      by_cases hk : kept = []
      · rw [if_pos (hroot.mpr hk), hk]
        simpa using hrelative
      · rw [if_neg (fun h => hk (hroot.mp h)), String.toList_append, hpath, hrelative,
          rooted_append, pathOf, if_neg hk]
    obtain ⟨n, htemplate⟩ := ht.toList
    rw [shape, shape, hfull, htemplate, hcut, shapeChars_append_slashes]

theorem relativePath_of_endpointOf {path : String} {op : Operation} {e : Endpoint}
    (h : endpointOf path op = .ok e) : e.relativePath = relativePath e.operation.path path := by
  obtain ⟨name, -, h⟩ := Outcome.bind_eq_ok.mp h
  cases h
  rfl

theorem placed_of_resourceOf {name : String} {group : Group} {resource : Resource}
    (h : resourceOf settings name group = .ok resource) (hg : group.operations ≠ []) :
    Placed settings resource := by
  have hops := resourceOf_eq_ok h
  obtain ⟨endpoints, hendpoints, h⟩ := Outcome.bind_eq_ok.mp h
  cases h
  refine ⟨hops ▸ hg, by rw [hops], ?_⟩
  intro e he
  obtain ⟨op, -, hop⟩ := Outcome.exists_of_mem_mapM hendpoints he
  exact relativePath_of_endpointOf hop

theorem occupied_of_addOperation {groups groups' : Table String Group} {op : Operation}
    (hg : ∀ e ∈ groups, e.2.operations ≠ []) (h : addOperation settings groups op = .ok groups') :
    ∀ e ∈ groups', e.2.operations ≠ [] := by
  obtain ⟨k, -, h⟩ := Outcome.bind_eq_ok.mp h
  obtain ⟨name, -, h⟩ := Outcome.bind_eq_ok.mp h
  cases h
  intro e he
  rcases Table.mem_put he with he | rfl
  · exact hg e he
  · simp

theorem occupied_of_groupsOf {contract : Contract} {groups : Table String Group}
    (h : groupsOf contract settings = .ok groups) : ∀ e ∈ groups, e.2.operations ≠ [] :=
  Outcome.foldlM_keeps (P := fun groups : Table String Group => ∀ e ∈ groups, e.2.operations ≠ [])
    (fun _ hg _ _ _ h => occupied_of_addOperation hg h) (by simp) h

/-- Telling methods apart leaves the paths as they are. -/
theorem relative_of_nameEndpoints {resource : Resource} {es : List Endpoint} {path : String}
    {state state' : NamingState} (h : es.foldlM (nameEndpoint resource) state = .ok state')
    (hs : ∀ e ∈ state.named, e.relativePath = relativePath e.operation.path path)
    (hes : ∀ e ∈ es, e.relativePath = relativePath e.operation.path path) :
    ∀ e ∈ state'.named, e.relativePath = relativePath e.operation.path path := by
  refine Outcome.foldlM_keeps (P := fun state : NamingState =>
    ∀ e ∈ state.named, e.relativePath = relativePath e.operation.path path) ?_ hs h
  intro s hs e he s' h
  obtain ⟨name, hnamed⟩ := nameEndpoint_eq_ok h
  intro e' he'
  rw [hnamed] at he'
  rcases List.mem_append.mp he' with he' | he'
  · exact hs e' he'
  · rw [List.mem_singleton.mp he']
    exact hes e he

theorem Placed.distinguish {resource named : Resource} (hr : Placed settings resource)
    (h : distinguish resource = .ok named) : Placed settings named := by
  have hops := distinguish_eq_ok h
  obtain ⟨final, hfinal, h⟩ := Outcome.bind_eq_ok.mp h
  cases h
  refine ⟨hops ▸ hr.occupied, ?_, ?_⟩
  · rw [hops]
    exact hr.path
  · exact relative_of_nameEndpoints hfinal (by simp) hr.relative

theorem ToldApart.placed {groups : List (String × Group)} {resources : List Resource}
    {dropped : List Dropped} (h : ToldApart settings groups resources dropped)
    (hg : ∀ e ∈ groups, e.2.operations ≠ []) : ∀ r ∈ resources, Placed settings r := by
  induction h with
  | done => simp
  | kept made apart _ ih =>
    obtain ⟨hfirst, hrest⟩ := List.forall_mem_cons.mp hg
    have hplaced := (placed_of_resourceOf made hfirst).distinguish apart
    exact List.forall_mem_cons.mpr ⟨hplaced, ih hrest⟩
  | dropped _ _ _ ih => exact ih (List.forall_mem_cons.mp hg).2

/-- Every endpoint of the resources of a contract is served where the contract has its
operation: the segments of its two paths are those of its template, the path of a resource
is the longest static start of its templates, or the first segment of that when none is
hinted, and no two endpoints of a method have paths of one shape. -/
theorem paths_of_group {document : Tree} {contract : Contract} {grouped : Grouped}
    {w w' : Workspace} (parsed : Contract.ofTree document = .ok contract)
    (regular : ∀ op ∈ contract.operations, Regular op.path)
    (run : group contract settings w = .ok grouped w') :
    (∀ r ∈ grouped.resources, ∀ e ∈ r.endpoints,
      segmentChars r.path.toList ++ segmentChars e.relativePath.toList =
        segmentChars e.operation.path.toList) ∧
    (∀ r ∈ grouped.resources, ∃ shared : List String,
      (∀ start, start <+: shared ↔ ∀ op ∈ r.operations, start <+: leadingStatic op.path) ∧
      r.path = "/" ++ "/".intercalate
        (if r.operations.any (isHinted settings) then shared else shared.take 1)) ∧
    (grouped.resources.flatMap fun r => r.endpoints.map fun e =>
      (e.operation.method, shape (fullPath r e))).Nodup := by
  obtain ⟨groups, dropped, hgroups, htold, -⟩ := group_eq_ok run
  have hplaced := htold.placed (occupied_of_groupsOf hgroups)
  have hperm := htold.perm.trans (perm_groupsOf hgroups)
  have hserved : ∀ r ∈ grouped.resources, ∀ e ∈ r.endpoints,
      segmentChars r.path.toList ++ segmentChars e.relativePath.toList =
          segmentChars e.operation.path.toList ∧
        shape (fullPath r e) = shape e.operation.path := by
    intro r hr e he
    have hop : e.operation ∈ contract.operations := by
      apply hperm.subset
      apply List.mem_append_left
      exact List.mem_flatMap.mpr ⟨r, hr, List.mem_map_of_mem he⟩
    exact (hplaced r hr).served he (regular e.operation hop)
  refine ⟨fun r hr e he => (hserved r hr e he).1, ?_, ?_⟩
  · intro r hr
    refine ⟨sharedStart (r.operations.map fun op => leadingStatic op.path), ?_, ?_⟩
    · intro start
      rw [prefix_sharedStart_iff (by simpa using (hplaced r hr).occupied), List.forall_mem_map]
    · rw [(hplaced r hr).path, resourcePath_eq]
  · obtain ⟨seen, hapart⟩ := Contract.apart_of_ofTree parsed
    have hshapes : (grouped.resources.flatMap fun r => r.endpoints.map fun e =>
        (e.operation.method, shape (fullPath r e))) =
          (grouped.resources.flatMap Resource.operations).map ContractReader.shapeOf := by
      rw [List.map_flatMap]
      refine List.flatMap_congr fun r hr => ?_
      rw [Resource.operations, List.map_map]
      refine List.map_congr_left fun e he => ?_
      rw [(hserved r hr e he).2]
      rfl
    rw [hshapes]
    have hall := (hperm.map ContractReader.shapeOf).nodup_iff.mpr hapart.nodup
    rw [List.map_append] at hall
    exact (List.nodup_append.mp hall).1

/-- Shops with a slash at the end of a template, a root, and two operations with one hint. -/
def shopsDocument : Tree :=
  .map [
    (.text "openapi", .text "3.0.0"),
    (.text "paths", .map [
      (.text "/", .map [(.text "get", .map [])]),
      (.text "/shops", .map [(.text "get", .map [])]),
      (.text "/shops/\x7bid\x7d/", .map [
        (.text "parameters", .list [.map [
          (.text "name", .text "id"), (.text "in", .text "path"), (.text "required", .bool true),
          (.text "schema", .map [(.text "type", .text "string")])]]),
        (.text "get", .map []),
        (.text "delete", .map [])]),
      (.text "/api/v1/users", .map [(.text "get", .map [
        (.text "x-codegen-resource", .text "admin")])]),
      (.text "/api/v1/roles/", .map [(.text "get", .map [
        (.text "x-codegen-resource", .text "admin")])])])]

theorem paths_of_group_shops :
    ∃ contract grouped w, Contract.ofTree shopsDocument = .ok contract ∧
      (∀ op ∈ contract.operations, Regular op.path) ∧
      group contract {} {} = .ok grouped w ∧
      (grouped.resources.map fun r => (r.path, r.endpoints.map Endpoint.relativePath)) =
        [("/", [""]), ("/shops", ["", "/\x7bid\x7d", "/\x7bid\x7d"]),
          ("/api/v1", ["/users", "/roles"])] ∧
      (grouped.resources.flatMap fun r => r.endpoints.map fun e =>
        (e.operation.method, shape (fullPath r e))).Nodup := by
  obtain ⟨grouped, w, run, hpaths⟩ := Step.exists_of_outcome
    (r := (Step.lift (Contract.ofTree shopsDocument) >>= fun contract => group contract {}) {})
    (f := fun grouped =>
      grouped.resources.map fun r => (r.path, r.endpoints.map Endpoint.relativePath))
    (b := [("/", [""]), ("/shops", ["", "/\x7bid\x7d", "/\x7bid\x7d"]),
      ("/api/v1", ["/users", "/roles"])]) (by decide +kernel)
  obtain ⟨contract, v, hlift, run⟩ := Step.bind_eq_ok.mp run
  obtain ⟨parsed, rfl⟩ := Step.lift_eq_ok.mp hlift
  have hall : (Contract.ofTree shopsDocument).toOption.all
      fun contract => decide (∀ op ∈ contract.operations, Regular op.path) := by decide +kernel
  have regular : ∀ op ∈ contract.operations, Regular op.path := by
    simpa [parsed, Except.toOption] using hall
  obtain ⟨-, -, hnodup⟩ := paths_of_group parsed regular run
  exact ⟨contract, grouped, w, parsed, regular, run, hpaths, hnodup⟩

end ApiContract.Grouping
