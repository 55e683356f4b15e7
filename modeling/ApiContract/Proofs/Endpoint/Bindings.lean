import ApiContract.Proofs.Endpoint.Order
import ApiContract.Proofs.Endpoint.Signing
import ApiContract.Proofs.Naming.Legal

/-! # What a signature binds

A signature binds every parameter of its operation once, each list of parameters behind the
other, and then the body. Each binding takes an identifier that none before it has, and that
is legal whatever the parameter is called.
-/
namespace ApiContract.Signature

open ContractReader (Declares keyOfParameter)

variable {contract : Contract} {settings : Settings} {method : String} {op : Operation}
  {w w' : Workspace}

def bindingPlaces : List String := ["path", "header", "query", "body"]

theorem isIdentifier_freeIdentifier {name place : String} (used : List String)
    (hp : place ∈ bindingPlaces) : Naming.IsIdentifier (freeIdentifier name place used).toList := by
  have hid : Naming.IsIdentifier (Naming.identifier name).toList := by
    rw [Naming.identifier, String.toList_ofList]
    exact Naming.isIdentifier_identifierWord _
  have hplaced : Naming.IsIdentifier (Naming.identifier name ++ Naming.typeName place).toList := by
    have hall : ∀ place ∈ bindingPlaces, (Naming.typeName place).toList.all Naming.isPart = true ∧
        (Naming.typeName place).toList.any (fun c => !c.isLower) = true := by decide +kernel
    obtain ⟨hparts, hcapital⟩ := hall place hp
    obtain ⟨c, hc, hl⟩ := List.any_eq_true.mp hcapital
    rw [String.toList_append]
    exact hid.toIsWord.identifier_append (List.all_eq_true.mp hparts) hc (by simpa using hl)
  refine Naming.IsIdentifier.fresh ?_ used
  split
  · exact hplaced
  · exact hid

/-- The identifiers of bindings are legal and all different. -/
structure Identified (bound : List Binding) : Prop where
  legal : ∀ b ∈ bound, Naming.IsIdentifier b.identifier.toList
  apart : (bound.map Binding.identifier).Nodup

theorem identifierOf_eq_ok {name place : Scalar} {used : List String} {identifier : String}
    (h : identifierOf name place used = .ok identifier) :
    ∃ n p, name = .text n ∧ place = .text p ∧ identifier = freeIdentifier n p used := by
  obtain ⟨n, hn, h⟩ := Outcome.bind_eq_ok.mp h
  obtain ⟨p, hp, h⟩ := Outcome.bind_eq_ok.mp h
  have hname := Scalar.text?_eq_some.mp (Outcome.need_eq_ok.mp hn)
  have hplace := Scalar.text?_eq_some.mp (Outcome.need_eq_ok.mp hp)
  exact ⟨n, p, hname, hplace, (Outcome.pure_eq_ok.mp h).symm⟩

theorem Identified.add {bound : List Binding} (h : Identified bound) {b : Binding}
    {name place : Scalar} (hplace : ∃ p ∈ bindingPlaces, place = .text p)
    (hb : identifierOf name place (bound.map Binding.identifier) = .ok b.identifier) :
    Identified (bound ++ [b]) := by
  obtain ⟨n, p, -, rfl, hid⟩ := identifierOf_eq_ok hb
  obtain ⟨p', hp, hsame⟩ := hplace
  obtain rfl := Scalar.text.inj hsame
  constructor
  · refine List.forall_mem_append.mpr ⟨h.legal, ?_⟩
    simpa [hid] using isIdentifier_freeIdentifier _ hp
  · have hnew : b.identifier ∉ bound.map Binding.identifier := hid ▸ Naming.fresh_notMem _ _ _
    rw [List.map_append]
    exact h.apart.append (List.nodup_singleton _) (by simpa using hnew)

/-- The binding of a parameter. -/
structure Binds (b : Binding) (p : Parameter) : Prop where
  name : b.name = p.name
  place : b.place = p.place
  required : b.required = p.required
  description : b.description = p.description

/-- The binding of a body; a body without a name has the usual one. -/
structure BindsBody (b : Binding) (body : RequestBody) : Prop where
  name : bodyName body = .ok b.name
  place : b.place = .text "body"
  required : b.required = body.required
  description : b.description = body.description

theorem exists_bindingPlace {place : Scalar} (h : isBoundPlace place = true) :
    ∃ p ∈ bindingPlaces, place = .text p := by
  rcases isBoundPlace_iff.mp h with rfl | rfl | rfl
  · exact ⟨"path", by decide, rfl⟩
  · exact ⟨"query", by decide, rfl⟩
  · exact ⟨"header", by decide, rfl⟩

theorem binds_of_bindParameter {bound bound' : List Binding} {p : Parameter}
    (h : bindParameter contract method bound p w = .ok bound' w')
    (hp : isBoundPlace p.place = true) (hb : Identified bound) :
    ∃ b, bound' = bound ++ [b] ∧ Binds b p ∧ Identified bound' := by
  obtain ⟨identifier, type, hidentifier, -, rfl⟩ := bindParameter_eq_ok h
  exact ⟨_, rfl, ⟨rfl, rfl, rfl, rfl⟩, hb.add (exists_bindingPlace hp) hidentifier⟩

/-- Parameters are bound one after the other. -/
theorem binds_of_bindParameters {ps : List Parameter} {bound bound' : List Binding}
    (h : ps.foldlM (bindParameter contract method) bound w = .ok bound' w')
    (hps : ∀ p ∈ ps, isBoundPlace p.place = true) (hb : Identified bound) :
    ∃ bs, bound' = bound ++ bs ∧ List.Forall₂ Binds bs ps ∧ Identified bound' := by
  induction ps generalizing bound w with
  | nil =>
    cases h
    exact ⟨[], by simp, .nil, hb⟩
  | cons p rest ih =>
    rw [List.foldlM_cons] at h
    obtain ⟨next, v, hnext, h⟩ := Step.bind_eq_ok.mp h
    obtain ⟨b, rfl, hbinds, hidentified⟩ :=
      binds_of_bindParameter hnext (hps p List.mem_cons_self) hb
    obtain ⟨bs, rfl, hall, hb'⟩ :=
      ih h (fun q hq => hps q (List.mem_cons_of_mem _ hq)) hidentified
    exact ⟨b :: bs, by simp, .cons hbinds hall, hb'⟩

theorem binds_of_bindBodies {bodies : List RequestBody} {bound bound' : List Binding}
    (h : bindBodies contract method bound bodies w = .ok bound' w') (hsingle : bodies.length ≤ 1)
    (hb : Identified bound) :
    ∃ bs, bound' = bound ++ bs ∧ List.Forall₂ BindsBody bs bodies ∧ Identified bound' := by
  cases bodies with
  | nil =>
    cases h
    exact ⟨[], by simp, .nil, hb⟩
  | cons body rest =>
    obtain rfl : rest = [] := List.eq_nil_of_length_eq_zero (by simpa using hsingle)
    obtain ⟨name, identifier, type, hname, hidentifier, -, rfl⟩ := bindBody_eq_ok h
    exact ⟨_, rfl, .cons ⟨hname, rfl, rfl, rfl⟩ .nil,
      hb.add ⟨"body", by decide, rfl⟩ hidentifier⟩

theorem checkBindable_eq_ok (h : checkBindable op = .ok ()) :
    (∀ p ∈ op.parameters, isBoundPlace p.place = true) ∧ op.bodies.length ≤ 1 := by
  unfold checkBindable at h
  split at h
  · cases h
  · next hplaces =>
    split at h
    · obtain ⟨names, -, h⟩ := Outcome.bind_eq_ok.mp h
      cases h
    · next hbodies =>
      refine ⟨?_, Nat.le_of_not_lt hbodies⟩
      simpa using List.find?_eq_none.mp hplaces

/-- The bindings of an operation, in the order in which its signature has them. -/
structure Arranged (op : Operation) (paths headers queries bodies : List Binding) : Prop where
  inPath : ∃ ps, ps.Perm (parametersIn op "path") ∧ List.Forall₂ Binds paths ps
  /-- Each placeholder is bound once, where it first comes up. -/
  placed : paths.map Binding.name = (Path.placeholders op.path).eraseDups.map Scalar.text
  inHeader : List.Forall₂ Binds headers (parametersIn op "header")
  inQuery : List.Forall₂ Binds queries (parametersIn op "query")
  inBody : List.Forall₂ BindsBody bodies op.bodies
  single : bodies.length ≤ 1
  /-- No parameter is anywhere else. -/
  whole : (parametersIn op "path" ++ parametersIn op "header" ++ parametersIn op "query").Perm
    op.parameters
  apart : ((paths ++ headers ++ queries).map fun b => (b.place, b.name)).Nodup

theorem map_of_binds {bs : List Binding} {ps : List Parameter} (h : List.Forall₂ Binds bs ps) :
    (bs.map fun b => (b.place, b.name)) = ps.map keyOfParameter := by
  induction h with
  | nil => rfl
  | cons hb _ ih => simp only [List.map_cons, ih, keyOfParameter, hb.place, hb.name]

theorem arranged_of_binds {paths headers queries bodies : List Binding} (declares : Declares op)
    (hps : ∀ p ∈ op.parameters, isBoundPlace p.place = true) (hsingle : op.bodies.length ≤ 1)
    (hpaths : List.Forall₂ Binds paths (pathParameters op))
    (hheaders : List.Forall₂ Binds headers (parametersIn op "header"))
    (hqueries : List.Forall₂ Binds queries (parametersIn op "query"))
    (hbodies : List.Forall₂ BindsBody bodies op.bodies) :
    Arranged op paths headers queries bodies where
  inPath := ⟨pathParameters op, perm_pathParameters op, hpaths⟩
  placed := by
    rw [← names_pathParameters declares]
    have hnames := congrArg (List.map Prod.snd) (map_of_binds hpaths)
    rw [List.map_map, List.map_map] at hnames
    exact hnames
  inHeader := hheaders
  inQuery := hqueries
  inBody := hbodies
  single := hbodies.length_eq ▸ hsingle
  whole := perm_places hps
  apart := by
    have hperm : (pathParameters op ++ parametersIn op "header" ++ parametersIn op "query").Perm
        op.parameters :=
      (((perm_pathParameters op).append_right _).append_right _).trans (perm_places hps)
    simp only [List.map_append, map_of_binds hpaths, map_of_binds hheaders, map_of_binds hqueries]
    rw [← List.map_append, ← List.map_append]
    exact (hperm.map keyOfParameter).nodup_iff.mpr declares.nodup_keys

/-- A contract gives each path parameter a place in the template, and a signature binds the
parameters in that place, then those in headers, then those in queries, and then the body. -/
theorem bindings_of_resolve {document : Tree} (parsed : Contract.ofTree document = .ok contract)
    (hop : op ∈ contract.operations) :
    (∀ p ∈ parametersIn op "path",
      placeholderIndex (Path.placeholders op.path) p < (Path.placeholders op.path).length) ∧
    ∀ settings method w w' s, resolve contract settings op method w = .ok s w' →
      (∃ paths headers queries bodies, s.parameters = paths ++ headers ++ queries ++ bodies ∧
        Arranged op paths headers queries bodies) ∧
      Identified s.parameters := by
  have declares := Contract.declares_of_ofTree parsed op hop
  refine ⟨fun p hp => placeholderIndex_lt declares hp, fun settings method w w' s run => ?_⟩
  obtain ⟨bound, primary, v₁, v₂, v₃, hcheck, hparameters, hbody, -, -⟩ :=
    build_eq_ok (resolve_eq_ok.mp run)
  obtain ⟨hplaces, hsingle⟩ := checkBindable_eq_ok hcheck
  have hin : ∀ {place : String}, ∀ p ∈ parametersIn op place, isBoundPlace p.place = true :=
    fun p hp => hplaces p (mem_parametersIn.mp hp).1
  rw [orderedParameters_eq, List.foldlM_append, List.foldlM_append] at hparameters
  obtain ⟨front, v, hfront, hquery⟩ := Step.bind_eq_ok.mp hparameters
  obtain ⟨paths, v, hpath, hheader⟩ := Step.bind_eq_ok.mp hfront
  have hnone : Identified [] := ⟨by simp, by simp⟩
  obtain ⟨_, rfl, hpaths, hfirst⟩ := binds_of_bindParameters hpath
    (fun p hp => hin p ((perm_pathParameters op).mem_iff.mp hp)) hnone
  obtain ⟨headers, rfl, hheaders, hfront⟩ := binds_of_bindParameters hheader hin hfirst
  obtain ⟨queries, rfl, hqueries, hbound⟩ := binds_of_bindParameters hquery hin hfront
  obtain ⟨bodies, hbound', hbodies, hall⟩ := binds_of_bindBodies hbody hsingle hbound
  exact ⟨⟨paths, headers, queries, bodies, hbound',
    arranged_of_binds declares hplaces hsingle hpaths hheaders hqueries hbodies⟩, hall⟩

/-- A shared parameter, a placeholder that comes up twice and names that fall together. -/
def ordersDocument : Tree :=
  .map [
    (.text "openapi", .text "3.0.0"),
    (.text "paths", .map [
      (.text "/shops/\x7bshop-id\x7d/orders/\x7bid\x7d/of/\x7bshop-id\x7d", .map [
        (.text "parameters", .list [.map [
          (.text "name", .text "id"), (.text "in", .text "path"), (.text "required", .bool true),
          (.text "schema", .map [(.text "type", .text "string")])]]),
        (.text "put", .map [
          (.text "parameters", .list [
            .map [(.text "name", .text "shopId"), (.text "in", .text "query"),
              (.text "schema", .map [(.text "type", .text "string")])],
            .map [(.text "name", .text "class"), (.text "in", .text "header"),
              (.text "schema", .map [(.text "type", .text "string")])],
            .map [(.text "name", .text "shop-id"), (.text "in", .text "path"),
              (.text "required", .bool true),
              (.text "schema", .map [(.text "type", .text "string")])]]),
          (.text "requestBody", .map [
            (.text "x-codegen-name", .text "class"),
            (.text "content", .map [(.text "text/plain", .map [
              (.text "schema", .map [(.text "type", .text "string")])])])])])])])]

def ordersContract : Contract :=
  (Contract.ofTree ordersDocument).toOption.getD { title := "", version := "" }

def ordersOperation : Operation :=
  ordersContract.operations.headD { method := "", path := "" }

theorem bindings_of_resolve_orders :
    Contract.ofTree ordersDocument = .ok ordersContract ∧
      ordersOperation ∈ ordersContract.operations ∧
      ∃ s w, resolve ordersContract {} ordersOperation "put" {} = .ok s w ∧
        s.parameters.map Binding.identifier =
          ["shopId", "id", "class_", "shopIdQuery", "class_Body"] ∧
        (∃ paths headers queries bodies, s.parameters = paths ++ headers ++ queries ++ bodies ∧
          Arranged ordersOperation paths headers queries bodies) ∧
        Identified s.parameters := by
  have parsed : Contract.ofTree ordersDocument = .ok ordersContract := by
    have hsome : (Contract.ofTree ordersDocument).toOption.isSome = true := by decide +kernel
    unfold ordersContract
    cases h : Contract.ofTree ordersDocument with
    | error failure => simp [h, Except.toOption] at hsome
    | ok contract => rfl
  have hop : ordersOperation ∈ ordersContract.operations := by
    have hsome : ordersContract.operations.isEmpty = false := by decide +kernel
    unfold ordersOperation
    cases h : ordersContract.operations with
    | nil => simp [h] at hsome
    | cons op rest => exact List.mem_cons_self
  have hpaths : pathParameters ordersOperation = (parametersIn ordersOperation "path").reverse :=
    pathParameters_eq (List.reverse_perm _) (by decide +kernel)
  obtain ⟨s, w, run, hnames⟩ := Step.exists_of_outcome
    (r := resolve ordersContract {} ordersOperation "put" {})
    (f := fun s => s.parameters.map Binding.identifier)
    (b := ["shopId", "id", "class_", "shopIdQuery", "class_Body"]) (by
      simp only [resolve, build_eq, orderedParameters_eq, hpaths]
      decide +kernel)
  obtain ⟨harranged, hidentified⟩ := (bindings_of_resolve parsed hop).2 _ _ _ _ _ run
  exact ⟨parsed, hop, s, w, run, hnames, harranged, hidentified⟩

end ApiContract.Signature
