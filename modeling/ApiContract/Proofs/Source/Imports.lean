import Mathlib.Data.List.Nodup
import ApiContract.Proofs.Contract.Targets
import ApiContract.Proofs.Endpoint.Qualified
import ApiContract.Proofs.Types.Linked
import ApiContract.Source.Artifact

/-! # Where imports come from

A unit imports what its types and annotations need: classes of a fixed library, generated
beans and enums, and types from outside under the names they were given. The library of a
unit has no simple name twice, and neither have the generated types. So two imports with one
simple name come from different sources, or one of them was given from outside.
-/
namespace ApiContract.Source

variable {settings : Settings}

theorem mem_mergeEqual {i : String} (names : List String) : i ∈ mergeEqual names ↔ i ∈ names := by
  induction names using mergeEqual.induct with
  | case1 a rest ih =>
    simp only [mergeEqual, if_true, ih, List.mem_cons]
    tauto
  | case2 a b rest hne ih => simp only [mergeEqual, if_neg hne, List.mem_cons, ih]
  | case3 short hshort => rw [mergeEqual]; exact hshort

theorem mem_importList {package i : String} {needs : List String} :
    i ∈ importList package needs ↔ i ∈ needs ∧ isImported package i = true := by
  rw [importList, mem_mergeEqual, List.mem_mergeSort, List.mem_filter]

theorem simpleName_below {package n : String} (h : '.' ∉ n.toList) :
    simpleName (package ++ "." ++ n) = n := by
  have hcut : (package ++ "." ++ n).toList = package.toList ++ '.' :: n.toList := by simp
  rw [simpleName, hcut, Text.afterLast_append, Text.afterLast_of_not_mem h, String.ofList_toList]

theorem packageOf_below {package n : String} (h : '.' ∉ n.toList) :
    packageOf (package ++ "." ++ n) = package := by
  have hcut : (package ++ "." ++ n).toList = package.toList ++ '.' :: n.toList := by simp
  have hskip : ∀ c ∈ n.toList.reverse, (c != '.') = true := by
    intro c hc
    have hne : c ≠ '.' := by
      rintro rfl
      exact h (List.mem_reverse.mp hc)
    simpa using hne
  have hrest : (n.toList.reverse ++ '.' :: package.toList.reverse).dropWhile (· ≠ '.') =
      '.' :: package.toList.reverse := by
    rw [List.dropWhile_append_of_pos (by simpa using hskip)]
    simp
  rw [packageOf, Text.beforeLast, hcut, if_pos (by simp), List.reverse_append, List.reverse_cons,
    List.append_assoc, List.singleton_append, hrest, List.drop_succ_cons, List.drop_zero,
    List.reverse_reverse, String.ofList_toList]

def typeLibrary : Option Dialect → List String
  | none => ["java.util.List", "java.util.Map", "java.util.Date", "java.io.InputStream"]
  | some d =>
    ["java.util.List", "java.util.Map", "java.util.Date", "java.io.InputStream",
      d.rawResponseType, d.asyncType]

def annotationNames : List String :=
  ["Path", "HttpMethod", "Produces", "Consumes"] ++ httpAnnotations.map Prod.snd ++
    placeAnnotations.map Prod.snd

/-- The fixed names that the interface of a resource may import. -/
def resourceLibrary (d : Dialect) : List String :=
  annotationNames.map d.annotationName ++ typeLibrary (some d)

/-- The fixed names that a bean may import. -/
def beanLibrary : List String := beanAnnotations ++ typeLibrary none

theorem nodup_simpleNames_resourceLibrary {d : Dialect} (h : d ∈ Dialect.known) :
    ((resourceLibrary d).map simpleName).Nodup := by
  have hall : ∀ d ∈ Dialect.known, ((resourceLibrary d).map simpleName).Nodup := by
    decide +kernel
  exact hall d h

theorem nodup_simpleNames_beanLibrary : (beanLibrary.map simpleName).Nodup := by
  decide +kernel

/-- Where a name that a unit needs comes from: the library, the package of the beans and
enums, or a type from outside, the latter two being nodes of types of the unit. -/
inductive Origin (library : List String) (settings : Settings) (nodes : List TypeRef) :
    String → Prop
  | fixed {q : String} (member : q ∈ library) : Origin library settings nodes q
  | generated {node : TypeRef} (part : node ∈ nodes)
      (kind : node.kind = .bean ∨ node.kind = .enum) :
      Origin library settings nodes (settings.beanPackage ++ "." ++ node.name)
  | given {q : String} (part : TypeRef.external q ∈ nodes) : Origin library settings nodes q

theorem Origin.mono {library library' : List String} {nodes nodes' : List TypeRef} {q : String}
    (h : Origin library settings nodes q) (hlibrary : library ⊆ library')
    (hnodes : nodes ⊆ nodes') :
    Origin library' settings nodes' q := by
  cases h with
  | fixed member => exact .fixed (hlibrary member)
  | generated part kind => exact .generated (hnodes part) kind
  | given part => exact .given (hnodes part)

/-- A piece of source text whose needs come from the library and from some types. -/
abbrev Piece.From (library : List String) (settings : Settings) (nodes : List TypeRef)
    (piece : Piece) : Prop :=
  ∀ q ∈ piece.needs, Origin library settings nodes q

theorem Piece.From.around {library : List String} {nodes nodes' : List TypeRef}
    {start need : String} {element : Outcome Piece} {piece : Piece}
    (h : Source.around start need element = .ok piece) (hneed : need ∈ library)
    (hnodes : nodes ⊆ nodes')
    (helement : ∀ e, element = .ok e → e.From library settings nodes) :
    piece.From library settings nodes' := by
  obtain ⟨e, he, h⟩ := Outcome.bind_eq_ok.mp h
  cases h
  refine List.forall_mem_cons.mpr ⟨.fixed hneed, fun q hq => ?_⟩
  exact (helement e he q hq).mono (List.Subset.refl _) hnodes

theorem subset_nodes (kind : TypeKind) (name : String) (qualified : Option String)
    (args : List TypeRef) :
    TypeRef.argumentNodes args ⊆ (TypeRef.mk kind name qualified args).nodes := by
  rw [TypeRef.nodes]
  exact List.subset_cons_self _ _

mutual

/-- The text of a type needs what its nodes are and what its dialect names. -/
theorem from_typePiece (dialect : Option Dialect) :
    ∀ (type : TypeRef) (piece : Piece), typePiece dialect settings type = .ok piece →
      type.Qualified → piece.From (typeLibrary dialect) settings type.nodes
  | .mk .void _ _ _, _, h, _ => by
    cases h
    simp [Piece.From]
  | .mk .primitive name qualified args, _, h, hq => by
    rw [typePiece] at h
    cases h
    have hnode := hq (.mk .primitive name qualified args) (by simp [TypeRef.nodes])
    intro q hmem
    simp only [Option.mem_toList, given?, Option.filter_eq_some_iff] at hmem
    obtain rfl := hnode.primitive rfl q hmem.1
    exact .fixed (by cases dialect <;> simp [typeLibrary])
  | .mk .bean name qualified args, _, h, _ => by
    rw [typePiece] at h
    cases h
    have hpart : TypeRef.mk .bean name qualified args ∈
        (TypeRef.mk .bean name qualified args).nodes := by
      simp [TypeRef.nodes]
    exact List.forall_mem_singleton.mpr (.generated hpart (Or.inl rfl))
  | .mk .enum name qualified args, _, h, _ => by
    rw [typePiece] at h
    cases h
    have hpart : TypeRef.mk .enum name qualified args ∈
        (TypeRef.mk .enum name qualified args).nodes := by
      simp [TypeRef.nodes]
    exact List.forall_mem_singleton.mpr (.generated hpart (Or.inr rfl))
  | .mk .external name qualified args, _, h, hq => by
    obtain ⟨q, hnode⟩ := (hq (.mk .external name qualified args) (by simp [TypeRef.nodes])).external
      rfl
    have hneed : (given? (some q)).getD (String.ofList (Text.afterLast '.' q.toList)) = q := by
      by_cases hempty : q = ""
      · subst hempty
        decide
      · simp [given?, Option.filter, hempty]
    rw [hnode] at h ⊢
    simp only [TypeRef.external, typePiece, hneed] at h
    cases h
    refine List.forall_mem_singleton.mpr (.given ?_)
    simp [TypeRef.external, TypeRef.nodes]
  | .mk .list name qualified args, _, h, hq => by
    rw [typePiece] at h
    refine .around h (by cases dialect <;> simp [typeLibrary]) (subset_nodes _ _ _ args) ?_
    exact fun e he => from_elementPiece dialect args e he
      fun node hnode => hq node (subset_nodes .list name qualified args hnode)
  | .mk .map name qualified args, _, h, hq => by
    rw [typePiece] at h
    refine .around h (by cases dialect <;> simp [typeLibrary]) (subset_nodes _ _ _ args) ?_
    exact fun e he => from_elementPiece dialect args e he
      fun node hnode => hq node (subset_nodes .map name qualified args hnode)
  | .mk .binary _ _ _, _, h, _ => by
    rw [typePiece] at h
    cases h
    exact List.forall_mem_singleton.mpr (.fixed (by cases dialect <;> simp [typeLibrary]))
  | .mk .rawResponse _ _ _, _, h, _ => by
    cases dialect with
    | none =>
      cases h
      simp [Piece.From]
    | some d =>
      cases h
      exact List.forall_mem_singleton.mpr (.fixed (by simp [typeLibrary]))
  | .mk .async name qualified args, _, h, hq => by
    cases dialect with
    | none =>
      cases h
      simp [Piece.From]
    | some d =>
      rw [typePiece] at h
      refine .around h (by simp [typeLibrary]) (subset_nodes _ _ _ args) ?_
      exact fun e he => from_elementPiece (some d) args e he
        fun node hnode => hq node (subset_nodes .async name qualified args hnode)
  | .mk .any _ _ _, _, h, _ => by
    cases h
    simp [Piece.From]

theorem from_elementPiece (dialect : Option Dialect) :
    ∀ (args : List TypeRef) (piece : Piece), elementPiece dialect settings args = .ok piece →
      (∀ node ∈ TypeRef.argumentNodes args, TypeRef.NodeQualified node) →
      piece.From (typeLibrary dialect) settings (TypeRef.argumentNodes args)
  | [], _, h, _ => by cases h
  | t :: rest, piece, h, hq => by
    rw [elementPiece] at h
    have hnodes : t.nodes ⊆ TypeRef.argumentNodes (t :: rest) := by
      rw [TypeRef.argumentNodes]
      exact List.subset_append_left _ _
    have hpiece := from_typePiece dialect t piece h fun node hnode => hq node (hnodes hnode)
    exact fun q hneed => (hpiece q hneed).mono (List.Subset.refl _) hnodes

end

/-- The types that the methods of a resource mention in a dialect. -/
def resourceTypes (signatures : Table String Signature) (d : Dialect) (resource : Resource) :
    List TypeRef :=
  resource.endpoints.flatMap fun e =>
    match Table.get? signatures e.operation.label with
    | some s => s.parameters.map Binding.type ++ [s.returnTypeFor d]
    | none => []

variable {signatures : Table String Signature} {d : Dialect}

theorem annotationName_mem {simple : String} (h : simple ∈ annotationNames) :
    d.annotationName simple ∈ resourceLibrary d :=
  List.mem_append_left _ (List.mem_map_of_mem h)

theorem from_httpAnnotation (method : String) (nodes : List TypeRef) :
    (httpAnnotationPiece d method).From (resourceLibrary d) settings nodes := by
  unfold httpAnnotationPiece
  split
  · next simple hfound =>
    have hsimple : simple ∈ annotationNames := List.mem_append_left _ (List.mem_append_right _
      (List.mem_map_of_mem (f := Prod.snd) (Table.mem_of_get? hfound)))
    exact List.forall_mem_singleton.mpr (.fixed (annotationName_mem hsimple))
  · exact List.forall_mem_singleton.mpr (.fixed (annotationName_mem (by simp [annotationNames])))

theorem from_mediaAnnotations {name : String} (hname : name ∈ annotationNames)
    {types : List Scalar} {pieces : List Piece} (h : mediaAnnotations d name types = .ok pieces)
    (nodes : List TypeRef) : ∀ p ∈ pieces, p.From (resourceLibrary d) settings nodes := by
  unfold mediaAnnotations at h
  split at h
  · cases h
    simp
  · obtain ⟨text, -, rfl⟩ := Outcome.map_eq_ok.mp h
    refine List.forall_mem_singleton.mpr (List.forall_mem_singleton.mpr ?_)
    exact .fixed (annotationName_mem hname)

theorem from_methodAnnotations {e : Endpoint} {s : Signature} {pieces : List Piece}
    (h : methodAnnotations d e s = .ok pieces) (nodes : List TypeRef) :
    ∀ p ∈ pieces, p.From (resourceLibrary d) settings nodes := by
  obtain ⟨produces, hproduces, h⟩ := Outcome.bind_eq_ok.mp h
  obtain ⟨consumes, hconsumes, h⟩ := Outcome.bind_eq_ok.mp h
  cases h
  have hpath : ∀ p ∈ pathAnnotations e.relativePath, p.From (resourceLibrary d) settings nodes := by
    unfold pathAnnotations
    split <;> simp [Piece.From]
  intro p hp
  simp only [List.mem_append, List.mem_singleton] at hp
  rcases hp with ((hp | rfl) | hp) | hp
  · exact hpath p hp
  · exact from_httpAnnotation _ nodes
  · exact from_mediaAnnotations (by simp [annotationNames]) hproduces nodes p hp
  · exact from_mediaAnnotations (by simp [annotationNames]) hconsumes nodes p hp

theorem from_parameterPiece {b : Binding} {piece : Piece} (hq : b.type.Qualified)
    (h : parameterPiece d settings b = .ok piece) :
    piece.From (resourceLibrary d) settings b.type.nodes := by
  obtain ⟨type, htype, h⟩ := Outcome.bind_eq_ok.mp h
  have hneeds : ∀ q ∈ type.needs,
      Origin (resourceLibrary d) settings b.type.nodes q := fun q hmem =>
    (from_typePiece (some d) b.type type htype hq q hmem).mono (List.subset_append_right _ _)
      (List.Subset.refl _)
  dsimp only at h
  split at h
  · next simple hplace =>
    obtain ⟨name, -, h⟩ := Outcome.bind_eq_ok.mp h
    cases h
    obtain ⟨place, -, hfound⟩ := Option.bind_eq_some_iff.mp hplace
    have hsimple : simple ∈ annotationNames := List.mem_append_right _
      (List.mem_map_of_mem (f := Prod.snd) (Table.mem_of_get? hfound))
    exact List.forall_mem_cons.mpr ⟨.fixed (annotationName_mem hsimple), hneeds⟩
  · cases h
    exact hneeds

theorem origin_of_methodUnit {resource : Resource} {e : Endpoint} {m : MethodUnit}
    {needs : List String} (hq : ∀ type ∈ resourceTypes signatures d resource, type.Qualified)
    (he : e ∈ resource.endpoints) (h : methodUnit signatures d settings e = .ok (m, needs)) :
    ∀ q ∈ needs, Origin (resourceLibrary d) settings
      ((resourceTypes signatures d resource).flatMap TypeRef.nodes) q := by
  obtain ⟨s, hs, h⟩ := Outcome.bind_eq_ok.mp h
  obtain ⟨annotations, hannotations, h⟩ := Outcome.bind_eq_ok.mp h
  obtain ⟨parameters, hparameters, h⟩ := Outcome.bind_eq_ok.mp h
  obtain ⟨comment, -, h⟩ := Outcome.bind_eq_ok.mp h
  obtain ⟨returned, hreturned, h⟩ := Outcome.bind_eq_ok.mp h
  cases h
  have hsigned := Outcome.need_eq_ok.mp hs
  have htypes : ∀ type ∈ s.parameters.map Binding.type ++ [s.returnTypeFor d],
      type ∈ resourceTypes signatures d resource := fun type htype =>
    List.mem_flatMap.mpr ⟨e, he, by rw [hsigned]; exact htype⟩
  have hnodes : ∀ type ∈ s.parameters.map Binding.type ++ [s.returnTypeFor d],
      type.nodes ⊆ (resourceTypes signatures d resource).flatMap TypeRef.nodes :=
    fun type htype node hnode => List.mem_flatMap.mpr ⟨type, htypes type htype, hnode⟩
  intro q hneed
  rw [List.mem_append, List.mem_append, List.mem_flatMap, List.mem_flatMap] at hneed
  rcases hneed with (⟨p, hp, hneed⟩ | ⟨p, hp, hneed⟩) | hneed
  · exact from_methodAnnotations hannotations _ p hp q hneed
  · obtain ⟨b, hb, hpiece⟩ := Outcome.exists_of_mem_mapM hparameters hp
    have hmem := List.mem_append_left [s.returnTypeFor d]
      (List.mem_map_of_mem (f := Binding.type) hb)
    exact (from_parameterPiece (hq _ (htypes _ hmem)) hpiece q hneed).mono (List.Subset.refl _)
      (hnodes _ hmem)
  · have hmem : s.returnTypeFor d ∈ s.parameters.map Binding.type ++ [s.returnTypeFor d] := by simp
    exact (from_typePiece (some d) _ _ hreturned (hq _ (htypes _ hmem)) q hneed).mono
      (List.subset_append_right _ _) (hnodes _ hmem)

/-- The names that the interface of a resource needs. -/
def resourceNeeds (signatures : Table String Signature) (d : Dialect) (settings : Settings)
    (resource : Resource) : Outcome (List String) := do
  let methods ← resource.endpoints.mapM (methodUnit signatures d settings)
  pure (d.annotationName "Path" :: methods.flatMap (·.2))

theorem parts_of_resourceUnit {resource : Resource} {unit : ResourceUnit}
    (h : resourceUnit signatures d settings resource = .ok unit) :
    unit.name = resource.name ∧ ∃ needs, resourceNeeds signatures d settings resource = .ok needs ∧
      unit.imports = importList settings.javaPackage needs := by
  obtain ⟨methods, hmethods, h⟩ := Outcome.bind_eq_ok.mp h
  cases h
  exact ⟨rfl, _, Outcome.bind_eq_ok.mpr ⟨methods, hmethods, rfl⟩, rfl⟩

/-- What the interface of a resource imports comes from the library of its dialect, the
generated types and the types from outside that its methods mention. -/
theorem origin_of_resourceUnit {resource : Resource} {unit : ResourceUnit}
    (hq : ∀ type ∈ resourceTypes signatures d resource, type.Qualified)
    (h : resourceUnit signatures d settings resource = .ok unit) :
    ∀ i ∈ unit.imports, isImported settings.javaPackage i = true ∧
      Origin (resourceLibrary d) settings
        ((resourceTypes signatures d resource).flatMap TypeRef.nodes) i := by
  obtain ⟨-, needs, hneeds, himports⟩ := parts_of_resourceUnit h
  obtain ⟨methods, hmethods, hneeds⟩ := Outcome.bind_eq_ok.mp hneeds
  cases hneeds
  intro i hi
  rw [himports] at hi
  obtain ⟨hneed, himported⟩ := mem_importList.mp hi
  refine ⟨himported, ?_⟩
  rcases List.mem_cons.mp hneed with rfl | hneed
  · exact .fixed (annotationName_mem (by simp [annotationNames]))
  · obtain ⟨⟨m, needs⟩, hm, hneed⟩ := List.mem_flatMap.mp hneed
    obtain ⟨e, he, hunit⟩ := Outcome.exists_of_mem_mapM hmethods hm
    exact origin_of_methodUnit hq he hunit i hneed

def beanTypes (bean : Bean) : List TypeRef := bean.fields.map BeanField.type

/-- The names that a bean needs. -/
def beanNeeds (settings : Settings) (bean : Bean) : Outcome (List String) := do
  let final ← bean.fields.foldlM (addField settings) {}
  pure ((if bean.fields.isEmpty then [] else beanAnnotations) ++ final.needs)

theorem parts_of_beanUnit {bean : Bean} {unit : BeanUnit} (h : beanUnit settings bean = .ok unit) :
    unit.name = bean.name ∧ ∃ needs, beanNeeds settings bean = .ok needs ∧
      unit.imports = importList settings.beanPackage needs := by
  obtain ⟨final, hfinal, h⟩ := Outcome.bind_eq_ok.mp h
  obtain ⟨comment, -, h⟩ := Outcome.bind_eq_ok.mp h
  cases h
  exact ⟨rfl, _, Outcome.bind_eq_ok.mpr ⟨final, hfinal, rfl⟩, rfl⟩

theorem origin_of_beanUnit {bean : Bean} {unit : BeanUnit}
    (hq : ∀ type ∈ beanTypes bean, type.Qualified) (h : beanUnit settings bean = .ok unit) :
    ∀ i ∈ unit.imports, isImported settings.beanPackage i = true ∧
      Origin beanLibrary settings ((beanTypes bean).flatMap TypeRef.nodes) i := by
  obtain ⟨-, needs, hneeds, himports⟩ := parts_of_beanUnit h
  obtain ⟨final, hfinal, hneeds⟩ := Outcome.bind_eq_ok.mp hneeds
  cases hneeds
  have hfields : ∀ q ∈ final.needs,
      Origin beanLibrary settings ((beanTypes bean).flatMap TypeRef.nodes) q := by
    refine Outcome.foldlM_keeps (P := fun state : FieldState => ∀ q ∈ state.needs,
      Origin beanLibrary settings ((beanTypes bean).flatMap TypeRef.nodes) q) ?_ (by simp) hfinal
    intro state hstate f hf state' hadd
    obtain ⟨name, -, hadd⟩ := Outcome.bind_eq_ok.mp hadd
    obtain ⟨comment, -, hadd⟩ := Outcome.bind_eq_ok.mp hadd
    obtain ⟨type, htype, hadd⟩ := Outcome.bind_eq_ok.mp hadd
    cases hadd
    have hmem : f.type ∈ beanTypes bean := List.mem_map_of_mem hf
    refine List.forall_mem_append.mpr ⟨hstate, fun q hneed => ?_⟩
    exact (from_typePiece none f.type type htype (hq _ hmem) q hneed).mono
      (List.subset_append_right _ _)
      fun node hnode => List.mem_flatMap.mpr ⟨f.type, hmem, hnode⟩
  intro i hi
  rw [himports] at hi
  obtain ⟨hneed, himported⟩ := mem_importList.mp hi
  refine ⟨himported, ?_⟩
  rcases List.mem_append.mp hneed with hneed | hneed
  · refine .fixed (List.mem_append_left _ ?_)
    split at hneed
    · cases hneed
    · exact hneed
  · exact hfields i hneed

/-- A generated class whose name is the simple name of one of the library. -/
def Shadows (library : List String) (settings : Settings) (entries : List String)
    (generated fixed : String) : Prop :=
  ∃ n ∈ entries, generated = settings.beanPackage ++ "." ++ n ∧ fixed ∈ library ∧
    simpleName fixed = n

/-- Nodes of which the beans and enums have entries, and names without a point. -/
structure ListedNames (entries : List String) (nodes : List TypeRef) : Prop where
  known : ∀ node ∈ nodes, node.kind = .bean ∨ node.kind = .enum → node.name ∈ entries
  words : ∀ n ∈ entries, '.' ∉ n.toList

/-- Two names of one simple name are one name, or one of them was given from outside, or one
is that of a generated class and the other that of the library. -/
theorem eq_or_clash {library entries : List String} {nodes : List TypeRef}
    (hlibrary : (library.map simpleName).Nodup) (hnodes : ListedNames entries nodes) {i j : String}
    (hi : Origin library settings nodes i) (hj : Origin library settings nodes j)
    (hsimple : simpleName i = simpleName j) :
    i = j ∨ TypeRef.external i ∈ nodes ∨ TypeRef.external j ∈ nodes ∨
      Shadows library settings entries i j ∨ Shadows library settings entries j i := by
  have hword : ∀ node ∈ nodes, node.kind = .bean ∨ node.kind = .enum →
      node.name ∈ entries ∧ simpleName (settings.beanPackage ++ "." ++ node.name) = node.name :=
    fun node part kind =>
      ⟨hnodes.known node part kind, simpleName_below (hnodes.words _ (hnodes.known node part kind))⟩
  cases hi with
  | given part => exact Or.inr (Or.inl part)
  | @fixed _ first =>
    cases hj with
    | given part => exact Or.inr (Or.inr (Or.inl part))
    | fixed second => exact Or.inl (List.inj_on_of_nodup_map hlibrary first second hsimple)
    | @generated node part kind =>
      obtain ⟨hentry, hname⟩ := hword node part kind
      exact Or.inr (Or.inr (Or.inr (Or.inr
        ⟨node.name, hentry, rfl, first, hsimple.trans hname⟩)))
  | @generated node part kind =>
    obtain ⟨hentry, hname⟩ := hword node part kind
    cases hj with
    | given part => exact Or.inr (Or.inr (Or.inl part))
    | fixed second =>
      exact Or.inr (Or.inr (Or.inr (Or.inl
        ⟨node.name, hentry, rfl, second, hsimple.symm.trans hname⟩)))
    | @generated other otherPart otherKind =>
      obtain ⟨-, hother⟩ := hword other otherPart otherKind
      left
      rw [hname, hother] at hsimple
      rw [hsimple]

end ApiContract.Source
