import ApiContract.Proofs.Endpoint.Shapes
import ApiContract.Proofs.Refines
import ApiContract.Proofs.Types.Linked
import ApiContract.Source.Resource

/-! # What a dialect reaches

A dialect expresses asynchronous types and raw responses, and only a return type is one of
these, not a part of it and no type of a parameter. So the interfaces of a resource in two
dialects have the same methods but for such return types. In all else a dialect is seen in
the imports and in the description of the interface alone, and whether an interface can be
printed does not depend on it.
-/
namespace ApiContract

open Outcome

/-- A node that no dialect expresses in its way; a list or a map has an element. -/
structure TypeRef.NodeFixed (node : TypeRef) : Prop where
  raw : node.kind ≠ .rawResponse
  async : node.kind ≠ .async
  element : node.kind = .list ∨ node.kind = .map → node.args ≠ []

def TypeRef.Fixed (type : TypeRef) : Prop := ∀ node ∈ type.nodes, node.NodeFixed

namespace TypeRef

theorem Fixed.of_kind {kind : TypeKind} {name : String} {qualified : Option String}
    (simple : kind ∉ [.rawResponse, .async, .list, .map]) :
    Fixed (.mk kind name qualified []) := by
  simp only [List.mem_cons, List.not_mem_nil, or_false, not_or] at simple
  exact forall_nodes_leaf
    ⟨simple.1, simple.2.1, fun h => absurd h (not_or.mpr simple.2.2)⟩

theorem Fixed.wrapped {kind : TypeKind} {type : TypeRef} (h : type.Fixed)
    (hraw : kind ≠ .rawResponse) (hasync : kind ≠ .async) : Fixed (.mk kind "" none [type]) :=
  forall_nodes_wrapped ⟨hraw, hasync, fun _ => List.cons_ne_nil _ _⟩ h

/-- All types that mapping makes are the same in each dialect. -/
theorem made_fixed : Made Fixed where
  external _ := .of_kind (by decide)
  primitive _ _ := .of_kind (by decide)
  bean _ := .of_kind (by decide)
  enum _ := .of_kind (by decide)
  binary := .of_kind (by decide)
  any := .of_kind (by decide)
  list _ h := h.wrapped (by decide) (by decide)
  map _ h := h.wrapped (by decide) (by decide)

end TypeRef

namespace Source

variable (settings : Settings)

mutual

/-- Such a type has a text, the same one in each dialect. -/
theorem exists_piece_fixed : ∀ type : TypeRef, type.Fixed →
    ∃ piece, ∀ dialect, typePiece dialect settings type = .ok piece
  | .mk kind name qualified args, h => by
    have hnode := h (.mk kind name qualified args) (by simp [TypeRef.nodes])
    have helement : args ≠ [] →
        ∃ piece, ∀ dialect, elementPiece dialect settings args = .ok piece :=
      fun hne => exists_elementPiece_fixed args hne fun node hmem =>
        h node (by rw [TypeRef.nodes]; exact List.mem_cons_of_mem _ hmem)
    cases kind with
    | rawResponse => exact absurd rfl hnode.raw
    | async => exact absurd rfl hnode.async
    | list =>
      obtain ⟨e, he⟩ := helement (hnode.element (Or.inl rfl))
      exact ⟨_, fun dialect => by rw [typePiece, he dialect]; rfl⟩
    | map =>
      obtain ⟨e, he⟩ := helement (hnode.element (Or.inr rfl))
      exact ⟨_, fun dialect => by rw [typePiece, he dialect]; rfl⟩
    | _ => exact ⟨_, fun dialect => by rw [typePiece]⟩

theorem exists_elementPiece_fixed : ∀ args : List TypeRef, args ≠ [] →
    (∀ node ∈ TypeRef.argumentNodes args, node.NodeFixed) →
    ∃ piece, ∀ dialect, elementPiece dialect settings args = .ok piece
  | [], hne, _ => absurd rfl hne
  | t :: rest, _, h => by
    obtain ⟨piece, hpiece⟩ := exists_piece_fixed t fun node hnode =>
      h node (by rw [TypeRef.argumentNodes]; exact List.mem_append_left _ hnode)
    exact ⟨piece, fun dialect => by rw [elementPiece]; exact hpiece dialect⟩

end

/-- The way in which two dialects differ that lets the return type of a signature differ. -/
def Differs (d d' : Dialect) (s : Signature) : Prop :=
  s.isAsync = true ∧ (d.supportsAsync ≠ d'.supportsAsync ∨ d.asyncType ≠ d'.asyncType) ∨
    s.returnType.kind = .rawResponse ∧ d.supportsRawResponse ≠ d'.supportsRawResponse

/-- The return type in a dialect, before it is made asynchronous. -/
def plainReturn (d : Dialect) (s : Signature) : TypeRef :=
  if s.returnType.kind == .rawResponse && !d.supportsRawResponse then .binary else s.returnType

theorem returnTypeFor_wrapped {d : Dialect} {s : Signature} (hasync : s.isAsync = true)
    (hd : d.supportsAsync = true) : s.returnTypeFor d = .async (plainReturn d s) :=
  if_pos (Bool.and_eq_true_iff.mpr ⟨hasync, hd⟩)

theorem returnTypeFor_plain {d : Dialect} {s : Signature}
    (h : s.isAsync = false ∨ d.supportsAsync = false) : s.returnTypeFor d = plainReturn d s :=
  if_neg (Bool.not_eq_true _ ▸ Bool.and_eq_false_iff.mpr h)

theorem typePiece_async (d : Dialect) (type : TypeRef) :
    typePiece (some d) settings (.async type) = (typePiece (some d) settings type).map fun e =>
      { text := simpleName d.asyncType ++ "<" ++ e.text ++ ">",
        needs := d.asyncType :: e.needs } := by
  simp only [TypeRef.async, typePiece, elementPiece, around]
  cases typePiece (some d) settings type <;> rfl

variable {op : Operation} {s : Signature}

/-- A raw response is printed as one where the dialect supports it, and as a stream elsewhere. -/
theorem exists_piece_raw (d : Dialect) (hraw : s.returnType.kind = .rawResponse) :
    ∃ piece, typePiece (some d) settings (plainReturn d s) = .ok piece ∧
      piece.text = if d.supportsRawResponse then "Response" else "InputStream" := by
  unfold plainReturn
  cases hsupport : d.supportsRawResponse with
  | true =>
    cases htype : s.returnType with
    | mk kind name qualified args =>
      obtain rfl : kind = .rawResponse := by simpa [htype, TypeRef.kind] using hraw
      refine ⟨{ text := "Response", needs := [d.rawResponseType] }, ?_, rfl⟩
      simp [TypeRef.kind, typePiece]
  | false =>
    refine ⟨{ text := "InputStream", needs := ["java.io.InputStream"] }, ?_, rfl⟩
    simp [hraw, TypeRef.binary, TypeRef.simple, typePiece]

theorem agrees_plainReturn (d d' : Dialect) (h : s.Shaped TypeRef.Fixed op) :
    Agrees (fun p p' => p.text ≠ p'.text → s.returnType.kind = .rawResponse ∧
        d.supportsRawResponse ≠ d'.supportsRawResponse)
      (typePiece (some d) settings (plainReturn d s))
      (typePiece (some d') settings (plainReturn d' s)) := by
  by_cases hraw : s.returnType.kind = .rawResponse
  · obtain ⟨piece, hpiece⟩ := exists_piece_raw settings d hraw
    obtain ⟨piece', hpiece'⟩ := exists_piece_raw settings d' hraw
    rw [hpiece.1, hpiece'.1]
    refine .ok fun hne => ⟨hraw, fun hsupport => hne ?_⟩
    rw [hpiece.2, hpiece'.2, hsupport]
  · have hplain : ∀ d, plainReturn d s = s.returnType := fun d => by simp [plainReturn, hraw]
    have hsame : typePiece (some d) settings s.returnType =
        typePiece (some d') settings s.returnType := by
      rcases h.returned with he | he | he
      · rw [he]; rfl
      · exact absurd (congrArg TypeRef.kind he) hraw
      · obtain ⟨piece, hpiece⟩ := exists_piece_fixed settings _ he
        rw [hpiece, hpiece]
    rw [hplain, hplain, hsame]
    exact .same fun p _ hne => absurd rfl hne

/-- In two dialects the texts of a return type differ only where the dialects do. -/
theorem agrees_returnType (d d' : Dialect) (h : s.Shaped TypeRef.Fixed op) :
    Agrees (fun p p' => p.text ≠ p'.text → Differs d d' s)
      (typePiece (some d) settings (s.returnTypeFor d))
      (typePiece (some d') settings (s.returnTypeFor d')) := by
  have hplain := agrees_plainReturn settings d d' h
  cases hasync : s.isAsync with
  | false =>
    rw [returnTypeFor_plain (Or.inl hasync), returnTypeFor_plain (Or.inl hasync)]
    exact hplain.weaken fun _ _ hraw hne => Or.inr (hraw hne)
  | true =>
    have hone : d.supportsAsync ≠ d'.supportsAsync → Differs d d' s :=
      fun hne => Or.inl ⟨hasync, Or.inl hne⟩
    cases hd : d.supportsAsync with
    | false =>
      rw [returnTypeFor_plain (Or.inr hd)]
      cases hd' : d'.supportsAsync with
      | false =>
        rw [returnTypeFor_plain (Or.inr hd')]
        exact hplain.weaken fun _ _ hraw hne => Or.inr (hraw hne)
      | true =>
        rw [returnTypeFor_wrapped hasync hd', typePiece_async]
        exact hplain.map_right fun _ _ _ _ => hone (by simp [hd, hd'])
    | true =>
      rw [returnTypeFor_wrapped hasync hd, typePiece_async]
      cases hd' : d'.supportsAsync with
      | false =>
        rw [returnTypeFor_plain (Or.inr hd')]
        exact hplain.map_left fun _ _ _ _ => hone (by simp [hd, hd'])
      | true =>
        rw [returnTypeFor_wrapped hasync hd', typePiece_async]
        refine hplain.map fun p p' hraw hne => ?_
        by_cases htype : d.asyncType = d'.asyncType
        · exact Or.inr (hraw fun he => hne (by rw [htype, he]))
        · exact Or.inl ⟨hasync, Or.inr htype⟩

/-- Whether anything is returned is the same in each dialect. -/
theorem kind_returnTypeFor (d : Dialect) (h : s.Shaped TypeRef.Fixed op) :
    (s.returnTypeFor d).kind = .void ↔ s.returnType.kind = .void := by
  have hplain : (plainReturn d s).kind = .void ↔ s.returnType.kind = .void := by
    unfold plainReturn
    split
    · next hraw => simp_all [TypeRef.binary, TypeRef.simple, TypeRef.kind]
    · exact Iff.rfl
  by_cases hwrapped : s.isAsync = true ∧ d.supportsAsync = true
  · rw [returnTypeFor_wrapped hwrapped.1 hwrapped.2]
    exact iff_of_false (by simp [TypeRef.async, TypeRef.kind]) (h.body hwrapped.1)
  · rw [not_and_or, Bool.not_eq_true, Bool.not_eq_true] at hwrapped
    rw [returnTypeFor_plain hwrapped]
    exact hplain

theorem succeeds_plainReturn (d : Dialect) (h : s.Shaped TypeRef.Fixed op) :
    Succeeds (typePiece (some d) settings (plainReturn d s)) := by
  by_cases hraw : s.returnType.kind = .rawResponse
  · obtain ⟨piece, hpiece, -⟩ := exists_piece_raw settings d hraw
    exact ⟨piece, hpiece⟩
  · have hplain : plainReturn d s = s.returnType := by simp [plainReturn, hraw]
    rw [hplain]
    rcases h.returned with he | he | he
    · rw [he]
      exact succeeds_ok _
    · exact absurd (congrArg TypeRef.kind he) hraw
    · obtain ⟨piece, hpiece⟩ := exists_piece_fixed settings _ he
      exact ⟨piece, hpiece _⟩

theorem succeeds_returnType (d : Dialect) (h : s.Shaped TypeRef.Fixed op) :
    Succeeds (typePiece (some d) settings (s.returnTypeFor d)) := by
  have hplain := succeeds_plainReturn settings d h
  by_cases hwrapped : s.isAsync = true ∧ d.supportsAsync = true
  · rw [returnTypeFor_wrapped hwrapped.1 hwrapped.2, typePiece_async]
    exact (succeeds_map _).mpr hplain
  · rw [not_and_or, Bool.not_eq_true, Bool.not_eq_true] at hwrapped
    rwa [returnTypeFor_plain hwrapped]

variable {signatures : Table String Signature}

/-- The methods of an endpoint in two dialects: they are the same but for the text of the
return type, and that is the same as well unless the operation is asynchronous or returns a
raw response, and the dialects differ in how they express this. -/
structure SameMethod (signatures : Table String Signature) (d d' : Dialect) (e : Endpoint)
    (m m' : MethodUnit) : Prop where
  name : m.name = m'.name
  comment : m.comment = m'.comment
  annotations : m.annotations = m'.annotations
  parameters : m.parameters = m'.parameters
  returnType : m.returnType ≠ m'.returnType →
    e.operation.isAsync = true ∧
        (d.supportsAsync ≠ d'.supportsAsync ∨ d.asyncType ≠ d'.asyncType) ∨
      (∃ s, Table.get? signatures e.label = some s ∧ s.returnType.kind = .rawResponse) ∧
        d.supportsRawResponse ≠ d'.supportsRawResponse

theorem text_httpAnnotationPiece (d d' : Dialect) (method : String) :
    (httpAnnotationPiece d method).text = (httpAnnotationPiece d' method).text := by
  unfold httpAnnotationPiece
  split <;> rfl

theorem agrees_mediaAnnotations (d d' : Dialect) (name : String) (types : List Scalar) :
    Agrees (fun ps ps' => ps.map Piece.text = ps'.map Piece.text) (mediaAnnotations d name types)
      (mediaAnnotations d' name types) := by
  unfold mediaAnnotations
  split
  · exact .ok rfl
  · exact .map (R := Eq) (.same fun _ _ => rfl) fun _ _ he => congrArg (fun t => [t]) he

theorem agrees_methodAnnotations (d d' : Dialect) (e : Endpoint)
    (h : s.Shaped TypeRef.Fixed op) :
    Agrees (fun ps ps' => ps.map Piece.text = ps'.map Piece.text) (methodAnnotations d e s)
      (methodAnnotations d' e s) := by
  have hvoid : ((s.returnTypeFor d).kind == TypeKind.void) =
      ((s.returnTypeFor d').kind == TypeKind.void) := by
    rw [Bool.eq_iff_iff, beq_iff_eq, beq_iff_eq, kind_returnTypeFor d h, kind_returnTypeFor d' h]
  unfold methodAnnotations
  dsimp only
  rw [hvoid]
  refine .bind (agrees_mediaAnnotations d d' _ _) fun produces produces' hproduces => ?_
  refine .bind (agrees_mediaAnnotations d d' _ _) fun consumes consumes' hconsumes => .pure ?_
  simp only [List.map_append, hproduces, hconsumes, List.map_cons, List.map_nil,
    text_httpAnnotationPiece d d']

theorem agrees_parameterPiece (d d' : Dialect) {b : Binding} (h : b.type.Fixed) :
    Agrees (fun p p' => p.text = p'.text) (parameterPiece d settings b)
      (parameterPiece d' settings b) := by
  obtain ⟨piece, hpiece⟩ := exists_piece_fixed settings b.type h
  unfold parameterPiece
  rw [hpiece, hpiece]
  refine .bind_same fun type _ => ?_
  dsimp only
  split
  · exact .bind_same fun name _ => .pure rfl
  · exact .pure rfl

theorem agrees_methodUnit (d d' : Dialect) {e : Endpoint} (h : ∃ s,
    Table.get? signatures e.label = some s ∧ s.Shaped TypeRef.Fixed e.operation) :
    Agrees (fun m m' => SameMethod signatures d d' e m.1 m'.1) (methodUnit signatures d settings e)
      (methodUnit signatures d' settings e) := by
  obtain ⟨s, hs, hshaped⟩ := h
  refine .bind_same fun s' hs' => ?_
  obtain rfl : s = s' := Option.some.inj (hs.symm.trans (need_eq_ok.mp hs'))
  refine .bind (agrees_methodAnnotations d d' e hshaped) fun as as' hannotations => ?_
  have hparameters := Agrees.mapM_view fun b hb =>
    agrees_parameterPiece settings d d' (hshaped.parameters b hb)
  refine .bind hparameters fun ps ps' hparameters => .bind_same fun comment _ => ?_
  refine .bind (agrees_returnType settings d d' hshaped) fun r r' hreturned => .pure ?_
  refine ⟨rfl, rfl, hannotations, hparameters, fun hne => ?_⟩
  refine (hreturned hne).imp (fun ⟨hasync, hd⟩ => ⟨hshaped.async ▸ hasync, hd⟩) ?_
  exact fun ⟨hraw, hd⟩ => ⟨⟨s, hs, hraw⟩, hd⟩

/-- An endpoint whose method can be printed: its comment, its media types and the names of
its annotated parameters have texts. No type stands in the way, and no dialect. -/
structure Legible (e : Endpoint) (s : Signature) : Prop where
  comment : Succeeds (Doc.operationComment e.operation.description e.operation.summary
    (Table.values e.operation.responses))
  produces : s.returnType.kind ≠ .void → ∀ t ∈ s.produces, t.isWritable = true
  consumes : ∀ t ∈ s.consumes, t.isWritable = true
  parameters : ∀ b ∈ s.parameters, (placeAnnotationName? b.place).isSome →
    b.name.isWritable = true

theorem succeeds_literalOf (value : Scalar) :
    Succeeds (literalOf value) ↔ value.isWritable = true := by
  rw [literalOf, succeeds_map, Scalar.written]
  split
  · next h => exact iff_of_true (succeeds_ok _) h
  · next h => exact iff_of_false (not_succeeds_error _) h

theorem succeeds_mediaAnnotations (d : Dialect) (name : String) (types : List Scalar) :
    Succeeds (mediaAnnotations d name types) ↔ ∀ t ∈ types, t.isWritable = true := by
  unfold mediaAnnotations
  split
  · next hempty =>
    rw [List.isEmpty_iff.mp hempty]
    exact iff_of_true (succeeds_ok _) (by simp)
  · have htext : Succeeds (mediaAnnotationText name types) ↔
        Succeeds (types.mapM literalOf) ∧ True := by
      refine succeeds_bind fun literals => ?_
      split <;> exact iff_of_true (succeeds_ok _) trivial
    rw [succeeds_map, htext, and_true, succeeds_mapM]
    exact forall₂_congr fun t _ => succeeds_literalOf t

theorem succeeds_methodAnnotations (d : Dialect) (e : Endpoint) (h : s.Shaped TypeRef.Fixed op) :
    Succeeds (methodAnnotations d e s) ↔
      (s.returnType.kind ≠ .void → ∀ t ∈ s.produces, t.isWritable = true) ∧
        ∀ t ∈ s.consumes, t.isWritable = true := by
  have hproduces : Succeeds (mediaAnnotations d "Produces"
      (if (s.returnTypeFor d).kind == .void then [] else s.produces)) ↔
        (s.returnType.kind ≠ .void → ∀ t ∈ s.produces, t.isWritable = true) := by
    rw [succeeds_mediaAnnotations]
    split
    · next hvoid =>
      have hkind := (kind_returnTypeFor d h).mp (beq_iff_eq.mp hvoid)
      exact iff_of_true (by simp) fun hne => absurd hkind hne
    · next hvoid =>
      have hkind := mt (kind_returnTypeFor d h).mpr (mt beq_iff_eq.mpr hvoid)
      exact ⟨fun hall _ => hall, fun hall => hall hkind⟩
  unfold methodAnnotations
  refine (succeeds_bind fun produces => ?_).trans (and_congr_left' hproduces)
  exact (succeeds_bind_ok fun consumes => succeeds_ok _).trans (succeeds_mediaAnnotations d _ _)

theorem succeeds_parameterPiece (d : Dialect) {b : Binding} (h : b.type.Fixed) :
    Succeeds (parameterPiece d settings b) ↔
      ((placeAnnotationName? b.place).isSome → b.name.isWritable = true) := by
  obtain ⟨piece, hpiece⟩ := exists_piece_fixed settings b.type h
  unfold parameterPiece
  rw [hpiece]
  refine (succeeds_bind fun type => ?_).trans (and_iff_right (succeeds_ok piece))
  dsimp only
  cases placeAnnotationName? b.place with
  | none => exact iff_of_true (succeeds_ok _) nofun
  | some simple =>
    refine (succeeds_bind_ok fun name => succeeds_ok _).trans ?_
    rw [succeeds_literalOf]
    exact ⟨fun hname _ => hname, fun hname => hname rfl⟩

/-- Whether a method can be printed does not depend on the dialect. -/
theorem succeeds_methodUnit (d : Dialect) {e : Endpoint}
    (hs : Table.get? signatures e.label = some s) (h : s.Shaped TypeRef.Fixed e.operation) :
    Succeeds (methodUnit signatures d settings e) ↔ Legible e s := by
  have hparameters : Succeeds (s.parameters.mapM (parameterPiece d settings)) ↔
      ∀ b ∈ s.parameters, (placeAnnotationName? b.place).isSome → b.name.isWritable = true := by
    rw [succeeds_mapM]
    exact forall₂_congr fun b hb => succeeds_parameterPiece settings d (h.parameters b hb)
  have hparts : Succeeds (methodUnit signatures d settings e) ↔
      Succeeds (methodAnnotations d e s) ∧
        Succeeds (s.parameters.mapM (parameterPiece d settings)) ∧
        Succeeds (Doc.operationComment e.operation.description e.operation.summary
          (Table.values e.operation.responses)) := by
    have hneed : need (.unsigned e.operation.label)
        (Table.get? signatures e.operation.label) = .ok s := need_eq_ok.mpr hs
    unfold methodUnit
    dsimp only
    rw [hneed]
    change Succeeds (methodAnnotations d e s >>= _) ↔ _
    refine succeeds_bind fun annotations => succeeds_bind fun parameters => ?_
    refine succeeds_bind_ok fun comment => ?_
    exact (succeeds_bind_ok fun returned => succeeds_ok _).mpr (succeeds_returnType settings d h)
  rw [hparts, hparameters, succeeds_methodAnnotations d e h]
  constructor
  · rintro ⟨⟨hproduces, hconsumes⟩, hplaced, hcomment⟩
    exact ⟨hcomment, hproduces, hconsumes, hplaced⟩
  · rintro ⟨hcomment, hproduces, hconsumes, hplaced⟩
    exact ⟨⟨hproduces, hconsumes⟩, hplaced, hcomment⟩

/-- The interfaces of a resource in two dialects, which may differ in their imports, in their
descriptions, and in the return types of methods as far as the dialects do. -/
structure SameInterface (signatures : Table String Signature) (d d' : Dialect)
    (resource : Resource) (unit unit' : ResourceUnit) : Prop where
  package : unit.package = unit'.package
  name : unit.name = unit'.name
  path : unit.path = unit'.path
  methods : Rows (SameMethod signatures d d') resource.endpoints unit.methods unit'.methods

theorem agrees_resourceUnit (d d' : Dialect) {resource : Resource}
    (h : ∀ e ∈ resource.endpoints, ∃ s, Table.get? signatures e.label = some s ∧
      s.Shaped TypeRef.Fixed e.operation) :
    Agrees (SameInterface signatures d d' resource) (resourceUnit signatures d settings resource)
      (resourceUnit signatures d' settings resource) := by
  have hmethods := Agrees.mapM fun e he => agrees_methodUnit settings d d' (h e he)
  refine hmethods.bind fun ms ms' hrows => .pure ⟨rfl, rfl, rfl, ?_⟩
  exact hrows.map (k := Prod.fst) (l := Prod.fst) fun _ _ _ hsame => hsame

/-- An interface can be printed when all its methods can. -/
theorem succeeds_resourceUnit (d : Dialect) {resource : Resource}
    (h : ∀ e ∈ resource.endpoints, ∃ s, Table.get? signatures e.label = some s ∧
      s.Shaped TypeRef.Fixed e.operation) :
    Succeeds (resourceUnit signatures d settings resource) ↔
      ∀ e ∈ resource.endpoints, ∃ s, Table.get? signatures e.label = some s ∧ Legible e s := by
  refine (succeeds_bind_ok fun ms => succeeds_ok _).trans (succeeds_mapM.trans ?_)
  refine forall₂_congr fun e he => ?_
  obtain ⟨s, hs, hshaped⟩ := h e he
  rw [succeeds_methodUnit settings d hs hshaped]
  constructor
  · exact fun hlegible => ⟨s, hs, hlegible⟩
  · rintro ⟨s', hs', hlegible⟩
    cases Option.some.inj (hs.symm.trans hs')
    exact hlegible

end Source

end ApiContract
