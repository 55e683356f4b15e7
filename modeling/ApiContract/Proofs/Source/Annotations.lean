import ApiContract.Proofs.Lexical.Escaped
import ApiContract.Proofs.Source.Lines

/-! # Strings in the printed source

Paths, methods, media types, names of parameters and properties and the values of
an enumeration are texts of the contract, and the printed text holds each as a string
literal, in a line of its own or in that of the parameters or of the constant. Reading the
line gives the text back at every place.
-/
namespace ApiContract.Source
open Lexical

/-- An annotation whose string literals are those with the values. -/
structure Annotates (name : String) (values : List String) (text : String) : Prop where
  shape : ∃ arguments, text = "@" ++ name ++ "(" ++ arguments ++ ")"
  literals : HasLiterals text values

theorem isGap_start {name : String} (hname : IsGap name.toList) {mark : List Char}
    (hmark : IsGap mark) :
    IsGap ('@' :: name.toList ++ mark) := by
  refine ⟨by simp, fun c hc => ?_⟩
  rcases List.mem_append.mp hc with hc | hc
  · rcases List.mem_cons.mp hc with rfl | hc
    · decide
    · exact hname.2 c hc
  · exact hmark.2 c hc

theorem annotates_one (name : String) (hname : IsGap name.toList) (value : String) :
    Annotates name [value] ("@" ++ name ++ "(" ++ Text.escaped value ++ ")") := by
  have hopen : IsGap ['('] := by decide
  have hclose : IsGap [')'] := by decide
  have hread := Carries.gap_append (isGap_start hname hopen)
    (Carries.literal_gap_append value hclose .nil)
  refine ⟨⟨_, rfl⟩, Carries.hasLiterals ?_⟩
  simpa [List.append_assoc] using hread

theorem annotates_braced (name : String) (hname : IsGap name.toList) (values : List String) :
    Annotates name values
      ("@" ++ name ++ "(" ++ braced (", ".intercalate (values.map Text.escaped)) ++ ")") := by
  have hopen : IsGap ['(', '\x7b'] := by decide
  have hclose : IsGap ['\x7d', ')'] := by decide
  have hread := Carries.gap_append (isGap_start hname hopen)
    (Carries.list_gap_append values hclose .nil)
  refine ⟨⟨_, rfl⟩, Carries.hasLiterals ?_⟩
  simpa [braced, List.append_assoc] using hread

theorem mem_lines_path (u : ResourceUnit) :
    "@Path(" ++ Text.escaped u.path ++ ")" ∈ u.lines := by
  simp [ResourceUnit.lines]

theorem isGap_place {place : Scalar} {simple : String}
    (h : placeAnnotationName? place = some simple) : IsGap simple.toList := by
  have hall : ∀ e ∈ placeAnnotations, IsGap e.2.toList := by decide
  obtain ⟨text, -, h⟩ := Option.bind_eq_some_iff.mp h
  exact hall _ (Table.mem_of_get? h)

theorem written_of_literals {types : List Scalar} {literals : List String}
    (h : types.mapM literalOf = .ok literals) :
    ∃ values, types.mapM Scalar.written = .ok values ∧ literals = values.map Text.escaped := by
  induction types generalizing literals with
  | nil =>
    cases h
    exact ⟨[], rfl, rfl⟩
  | cons type rest ih =>
    rw [List.mapM_cons] at h
    obtain ⟨literal, hliteral, h⟩ := Outcome.bind_eq_ok.mp h
    obtain ⟨others, hothers, h⟩ := Outcome.bind_eq_ok.mp h
    cases h
    obtain ⟨value, hvalue, rfl⟩ := Outcome.map_eq_ok.mp hliteral
    obtain ⟨values, hvalues, rfl⟩ := ih hothers
    refine ⟨value :: values, ?_, rfl⟩
    rw [List.mapM_cons, hvalue, hvalues]
    rfl

theorem annotates_media {name text : String} {types : List Scalar} (hname : IsGap name.toList)
    (h : mediaAnnotationText name types = .ok text) :
    ∃ values, types.mapM Scalar.written = .ok values ∧ Annotates name values text := by
  obtain ⟨literals, hliterals, h⟩ := Outcome.bind_eq_ok.mp h
  obtain ⟨values, hvalues, rfl⟩ := written_of_literals hliterals
  refine ⟨values, hvalues, ?_⟩
  split at h
  · next only honly =>
    cases h
    obtain ⟨value, rfl, rfl⟩ := List.map_eq_singleton_iff.mp honly
    exact annotates_one _ hname value
  · cases h
    exact annotates_braced _ hname values

theorem annotates_mediaAnnotations {d : Dialect} {name : String} {types : List Scalar}
    {pieces : List Piece} (hname : IsGap name.toList) (hne : types ≠ [])
    (h : mediaAnnotations d name types = .ok pieces) :
    ∃ values, types.mapM Scalar.written = .ok values ∧
      ∃ piece ∈ pieces, Annotates name values piece.text := by
  rw [mediaAnnotations, if_neg (by simpa using hne)] at h
  obtain ⟨text, htext, rfl⟩ := Outcome.map_eq_ok.mp h
  obtain ⟨values, hvalues, hannotates⟩ := annotates_media hname htext
  exact ⟨values, hvalues, _, List.mem_singleton_self _, hannotates⟩

/-- A parameter of a method. Before its type stands the annotation of its place, if the place has
one, and holds its name. -/
def IsParameter (d : Dialect) (settings : Settings) (b : Binding) (text : String) : Prop :=
  ∃ type, typePiece (some d) settings b.type = .ok type ∧
    match placeAnnotationName? b.place with
    | none => text = type.text ++ " " ++ b.identifier
    | some simple => ∃ name annotation, b.name.written = .ok name ∧
        text = annotation ++ " " ++ (type.text ++ " " ++ b.identifier) ∧
        Annotates simple [name] annotation

theorem isParameter {d : Dialect} {settings : Settings} {b : Binding} {piece : Piece}
    (h : parameterPiece d settings b = .ok piece) : IsParameter d settings b piece.text := by
  obtain ⟨type, htype, h⟩ := Outcome.bind_eq_ok.mp h
  refine ⟨type, htype, ?_⟩
  cases hplace : placeAnnotationName? b.place with
  | none =>
    rw [hplace] at h
    cases h
    rfl
  | some simple =>
    rw [hplace] at h
    obtain ⟨literal, hliteral, h⟩ := Outcome.bind_eq_ok.mp h
    cases h
    obtain ⟨name, hname, rfl⟩ := Outcome.map_eq_ok.mp hliteral
    refine ⟨name, "@" ++ simple ++ "(" ++ Text.escaped name ++ ")", hname, ?_,
      annotates_one _ (isGap_place hplace) name⟩
    apply String.toList_inj.mp
    simp

/-- The strings of a method in the lines of its block: those of its annotations, each a line, and
those of its parameters in the line that declares it. -/
structure MethodStrings (d : Dialect) (settings : Settings) (e : Endpoint) (s : Signature)
    (block : List String) : Prop where
  path : e.relativePath ≠ "" → ∃ text, "  " ++ text ∈ block ∧ Annotates "Path" [e.relativePath] text
  http : Table.get? httpAnnotations e.operation.method = none →
    ∃ text, "  " ++ text ∈ block ∧ Annotates "HttpMethod" [e.operation.method.toUpper] text
  produces : (s.returnTypeFor d).kind ≠ .void → s.produces ≠ [] →
    ∃ values, s.produces.mapM Scalar.written = .ok values ∧
      ∃ text, "  " ++ text ∈ block ∧ Annotates "Produces" values text
  consumes : s.consumes ≠ [] →
    ∃ values, s.consumes.mapM Scalar.written = .ok values ∧
      ∃ text, "  " ++ text ∈ block ∧ Annotates "Consumes" values text
  parameters : ∃ returned texts, typePiece (some d) settings (s.returnTypeFor d) = .ok returned ∧
    List.Forall₂ (IsParameter d settings) s.parameters texts ∧
    "  " ++ returned.text ++ " " ++ s.methodName ++ "(" ++ ", ".intercalate texts ++ ");" ∈ block

theorem Composed.strings {d : Dialect} {settings : Settings} {e : Endpoint} {s : Signature}
    {m : MethodUnit} (h : Composed d settings e s m) :
    MethodStrings d settings e s (methodLines m) := by
  obtain ⟨pieces, hpieces, hannotations⟩ := h.annotations
  obtain ⟨parameters, hparameters, hm⟩ := h.parameters
  obtain ⟨returned, hreturned, htype⟩ := h.returned
  obtain ⟨produces, hproduces, hpieces⟩ := Outcome.bind_eq_ok.mp hpieces
  obtain ⟨consumes, hconsumes, hpieces⟩ := Outcome.bind_eq_ok.mp hpieces
  cases hpieces
  have hline : ∀ piece ∈ pathAnnotations e.relativePath ++
      [httpAnnotationPiece d e.operation.method] ++ produces ++ consumes,
      "  " ++ piece.text ∈ methodLines m := fun piece hpiece =>
    (mem_methodLines m).1 _ (hannotations ▸ List.mem_map_of_mem hpiece)
  simp only [List.forall_mem_append, List.forall_mem_singleton] at hline
  obtain ⟨⟨⟨hpath, hhttp⟩, hprod⟩, hcons⟩ := hline
  refine ⟨fun hne => ?_, fun hnone => ?_, fun hvoid hne => ?_, fun hne => ?_, ?_⟩
  · rw [pathAnnotations, if_neg (by simpa using hne)] at hpath
    exact ⟨_, hpath _ (List.mem_singleton_self _), annotates_one "Path" (by decide) _⟩
  · rw [httpAnnotationPiece, hnone] at hhttp
    exact ⟨_, hhttp, annotates_one "HttpMethod" (by decide) _⟩
  · rw [if_neg (by simpa using hvoid)] at hproduces
    obtain ⟨values, hvalues, piece, hpiece, htext⟩ :=
      annotates_mediaAnnotations (by decide) hne hproduces
    exact ⟨values, hvalues, _, hprod piece hpiece, htext⟩
  · obtain ⟨values, hvalues, piece, hpiece, htext⟩ :=
      annotates_mediaAnnotations (by decide) hne hconsumes
    exact ⟨values, hvalues, _, hcons piece hpiece, htext⟩
  · refine ⟨returned, parameters.map Piece.text, hreturned, ?_, ?_⟩
    · exact List.forall₂_map_right_iff.mpr
        ((Outcome.forall₂_of_mapM hparameters).imp fun _ _ => isParameter)
    · rw [← htype, ← hm, ← h.named]
      exact (mem_methodLines m).2

/-- The strings of an interface in the lines of its text: that of its path, and those of each
method in its block. -/
def ResourceStrings (signatures : Table String Signature) (d : Dialect) (settings : Settings)
    (resource : Resource) (text : String) : Prop :=
  ∃ lines blocks, HasLines text lines ∧ HasBlocks blocks lines ∧
    (∃ line ∈ lines, Annotates "Path" [resource.path] line) ∧
    List.Forall₂ (fun e block => ∃ s, Table.get? signatures e.operation.label = some s ∧
      MethodStrings d settings e s block) resource.endpoints blocks

theorem resourceStrings {signatures : Table String Signature} {d : Dialect} {settings : Settings}
    {resource : Resource} {unit : ResourceUnit}
    (h : resourceUnit signatures d settings resource = .ok unit) :
    ResourceStrings signatures d settings resource unit.print := by
  obtain ⟨hpath, hmethods⟩ := resourceUnit_eq_ok h
  refine ⟨unit.lines, unit.methods.map methodLines, hasLines_unlines _, hasBlocks_lines unit,
    ⟨_, mem_lines_path unit, hpath ▸ annotates_one "Path" (by decide) _⟩, ?_⟩
  refine List.forall₂_map_right_iff.mpr (hmethods.imp fun e m hm => ?_)
  obtain ⟨needs, hm⟩ := hm
  obtain ⟨s, hs, hcomposed⟩ := methodUnit_eq_ok hm
  exact ⟨s, hs, hcomposed.strings⟩

/-- What a field of a bean becomes in the source: its literal is that of its name. -/
def HoldsName (f : BeanField) (u : FieldUnit) : Prop :=
  ∃ name, f.name.text? = some name ∧ u.literal = Text.escaped name

theorem fields_hold_names {settings : Settings} {bean : Bean} {unit : BeanUnit}
    (h : beanUnit settings bean = .ok unit) : List.Forall₂ HoldsName bean.fields unit.fields := by
  obtain ⟨final, hfinal, h⟩ := Outcome.bind_eq_ok.mp h
  obtain ⟨comment, -, h⟩ := Outcome.bind_eq_ok.mp h
  cases h
  obtain ⟨new, hnew, hall⟩ := Outcome.forall₂_of_foldlM FieldState.fields HoldsName
    (fun s f s' hs => by
      obtain ⟨name, hname, hs⟩ := Outcome.bind_eq_ok.mp hs
      obtain ⟨comment, -, hs⟩ := Outcome.bind_eq_ok.mp hs
      obtain ⟨type, -, hs⟩ := Outcome.bind_eq_ok.mp hs
      cases hs
      exact ⟨_, rfl, name, Outcome.need_eq_ok.mp hname, rfl⟩) hfinal
  rw [List.nil_append] at hnew
  exact hnew ▸ hall

theorem names_of_fields {fields : List BeanField} {units : List FieldUnit}
    (h : List.Forall₂ HoldsName fields units) :
    ∃ names : List String, fields.map (fun f => f.name.text?) = names.map some ∧
      units.map FieldUnit.literal = names.map Text.escaped := by
  induction h with
  | nil => exact ⟨[], rfl, rfl⟩
  | cons hfield _ ih =>
    obtain ⟨name, hname, hliteral⟩ := hfield
    obtain ⟨names, hnames, hliterals⟩ := ih
    exact ⟨name :: names, by rw [List.map_cons, hname, hnames]; rfl,
      by rw [List.map_cons, hliteral, hliterals]; rfl⟩

theorem annotates_property {f : BeanField} {u : FieldUnit} (h : HoldsName f u) :
    ∃ name annotation, f.name.text? = some name ∧ propertyLine u = "  " ++ annotation ∧
      Annotates "JsonProperty" [name] annotation := by
  obtain ⟨name, hname, hliteral⟩ := h
  refine ⟨name, _, hname, ?_, annotates_one "JsonProperty" (by decide) name⟩
  have hstart : "  @JsonProperty(" = "  " ++ ("@" ++ "JsonProperty" ++ "(") := by decide
  unfold propertyLine
  rw [hliteral, hstart]
  simp only [String.append_assoc]

/-- The lines of a block annotate the property of the field, as many times as is said. -/
def HoldsProperty (times : ℕ) (f : BeanField) (block : List String) : Prop :=
  ∃ name annotation, f.name.text? = some name ∧ Annotates "JsonProperty" [name] annotation ∧
    (List.replicate times ("  " ++ annotation)).Sublist block

theorem holdsProperty {f : BeanField} {u : FieldUnit} (h : HoldsName f u) :
    HoldsProperty 1 f (fieldLines u) ∧ HoldsProperty 2 f (accessorLines u) := by
  obtain ⟨name, annotation, hname, hline, hannotates⟩ := annotates_property h
  refine ⟨⟨name, annotation, hname, hannotates, ?_⟩, name, annotation, hname, hannotates, ?_⟩
  · rw [← hline, List.replicate_one, List.singleton_sublist]
    simp [fieldLines]
  · rw [← hline]
    have hmore : [propertyLine u].Sublist ["  public " ++ u.type ++ " " ++ u.getter ++ "() \x7b",
        "    return " ++ u.identifier ++ ";", "  \x7d", "", propertyLine u] := by simp
    exact ((hmore.trans (List.sublist_append_left _ _)).cons_cons (propertyLine u)).cons ""

/-- The strings of a class in the lines of its text: the property of a field stands before the
field and before each of its accessors, and the order of the properties before the class. -/
def BeanStrings (bean : Bean) (text : String) : Prop :=
  ∃ lines fields accessors, HasLines text lines ∧ HasBlocks (fields ++ accessors) lines ∧
    List.Forall₂ (HoldsProperty 1) bean.fields fields ∧
    List.Forall₂ (HoldsProperty 2) bean.fields accessors ∧
    (bean.fields ≠ [] → ∃ names : List String,
      bean.fields.map (fun f => f.name.text?) = names.map some ∧
        ∃ line ∈ lines, Annotates "JsonPropertyOrder" names line)

theorem beanStrings {settings : Settings} {bean : Bean} {unit : BeanUnit}
    (h : beanUnit settings bean = .ok unit) : BeanStrings bean unit.print := by
  have hfields := fields_hold_names h
  refine ⟨unit.lines, _, _, hasLines_unlines _, unit.hasBlocks_lines, ?_, ?_, fun hne => ?_⟩
  · exact List.forall₂_map_right_iff.mpr (hfields.imp fun _ _ hf => (holdsProperty hf).1)
  · exact List.forall₂_map_right_iff.mpr (hfields.imp fun _ _ hf => (holdsProperty hf).2)
  · obtain ⟨names, hnames, hliterals⟩ := names_of_fields hfields
    have hunit : unit.fields ≠ [] := fun he => hne (List.forall₂_nil_right_iff.mp (he ▸ hfields))
    refine ⟨names, hnames, _, ?_, annotates_braced "JsonPropertyOrder" (by decide) names⟩
    have horder : "@JsonPropertyOrder(" ++ braced (", ".intercalate (names.map Text.escaped)) ++
        ")" ∈ unit.annotationLines := by
      rw [BeanUnit.annotationLines, if_neg (by simpa using hunit), hliterals]
      exact List.mem_cons_of_mem _ List.mem_cons_self
    simp [BeanUnit.lines, horder]

/-- What a value becomes where texts are wanted: the literal of its text. -/
def HoldsText (value : Tree) (c : ConstantUnit) : Prop :=
  ∃ s, valueText value = .ok s ∧ c.literal = Text.escaped s

theorem constants_hold_texts {settings : Settings} {enum : EnumType} {unit : EnumUnit}
    (h : enumUnit settings enum = .ok unit) (htype : unit.valueType = .text) :
    List.Forall₂ HoldsText (enum.values.filter fun v => !v.isNull) unit.constants := by
  obtain ⟨constants, hconstants, h⟩ := Outcome.bind_eq_ok.mp h
  obtain ⟨comment, -, h⟩ := Outcome.bind_eq_ok.mp h
  cases h
  dsimp only at htype
  obtain ⟨new, hnew, hall⟩ := Outcome.forall₂_of_foldlM id HoldsText
    (fun s v s' hs => by
      obtain ⟨text, htext, hs⟩ := Outcome.bind_eq_ok.mp hs
      obtain ⟨written, hwritten, hs⟩ := Outcome.bind_eq_ok.mp hs
      cases hs
      rw [htype] at hwritten
      obtain ⟨text', htext', rfl⟩ := Outcome.map_eq_ok.mp hwritten
      exact ⟨_, rfl, text', htext', rfl⟩) hconstants
  rw [id, id, List.nil_append] at hnew
  exact hnew ▸ hall

/-- A constant with the literal of a value between its brackets. -/
def IsConstant (value : Tree) (line : String) : Prop :=
  ∃ name literal s, valueText value = .ok s ∧ IsLiteral literal s ∧
    ∃ mark ∈ [",", ";"], line = "  " ++ name ++ "(" ++ literal ++ ")" ++ mark

/-- The strings of an enumeration in the lines of its text, one for each value. -/
def EnumStrings (enum : EnumType) (text : String) : Prop :=
  ∃ lines block, HasLines text lines ∧ HasBlocks [block] lines ∧
    List.Forall₂ IsConstant (enum.values.filter fun v => !v.isNull) block

theorem enumStrings {settings : Settings} {enum : EnumType} {unit : EnumUnit}
    (h : enumUnit settings enum = .ok unit) (htype : unit.valueType = .text) :
    EnumStrings enum unit.print := by
  have hconstants := constants_hold_texts h htype
  by_cases hnone : unit.constants = []
  · have hempty : HasBlocks [[]] [] := inOrder_self trivial []
    have hlines : HasBlocks [[]] unit.lines := by simpa using hempty.around unit.lines []
    rw [hnone, List.forall₂_nil_right_iff] at hconstants
    exact ⟨unit.lines, [], hasLines_unlines _, hlines, hconstants ▸ .nil⟩
  · refine ⟨unit.lines, _, hasLines_unlines _, unit.hasBlocks_lines, ?_⟩
    refine (forall₂_trans hconstants (forall₂_constantLines hnone)).imp ?_
    rintro value line ⟨c, ⟨s, hs, hliteral⟩, mark, hmark, rfl⟩
    exact ⟨c.name, c.literal, s, hs, hliteral ▸ isLiteral_escaped s, mark, hmark, rfl⟩

/-- The places of the printed source that hold a text as a string, with what reading
them gives. -/
structure ReadBack : Prop where
  literal : ∀ s, IsLiteral (Text.escaped s) s
  resource : ∀ signatures d settings resource unit,
    resourceUnit signatures d settings resource = .ok unit →
      ResourceStrings signatures d settings resource unit.print
  bean : ∀ settings bean unit, beanUnit settings bean = .ok unit → BeanStrings bean unit.print
  enum : ∀ settings enum unit, enumUnit settings enum = .ok unit → unit.valueType = .text →
    EnumStrings enum unit.print

/-- Whatever a text holds, quotes, backslashes before a `u` and controls among it, the
printed source has one literal for it whose value it is. -/
theorem strings_readBack : ReadBack where
  literal := isLiteral_escaped
  resource _ _ _ _ _ := resourceStrings
  bean _ _ _ := beanStrings
  enum _ _ _ := enumStrings

/-- A backslash before a `u`, one before a quote, a line break and a character of two units. -/
def awkward : String := "a\\u0041\\\"\n😀"

def awkwardResource : Resource where
  name := "Awkward"
  path := awkward
  key := .null
  endpoints := [
    { operation := { method := "trace", path := "/" }, methodName := "trace"
      relativePath := awkward }]

def awkwardSignatures : Table String Signature := [
  ("TRACE /", {
    methodName := "trace"
    parameters := [{ name := .text awkward, identifier := "value", place := .text "query"
                     type := .mk .primitive "String" none [] }]
    returnType := .mk .primitive "String" none []
    produces := [.text awkward, .text ""]
    consumes := [.text awkward] })]

def awkwardBean : Bean where
  name := "Awkward"
  fields := [{ name := .text awkward, type := .mk .primitive "String" none [] }]

def awkwardEnum : EnumType where
  name := "Awkward"
  values := [.text awkward, .null, .text ""]

theorem readBack_awkward :
    (∃ unit, resourceUnit awkwardSignatures .jaxrs {} awkwardResource = .ok unit ∧
      ResourceStrings awkwardSignatures .jaxrs {} awkwardResource unit.print) ∧
    (∃ unit, beanUnit {} awkwardBean = .ok unit ∧ BeanStrings awkwardBean unit.print) ∧
    ∃ unit, enumUnit {} awkwardEnum = .ok unit ∧ unit.valueType = .text ∧
      EnumStrings awkwardEnum unit.print := by
  obtain ⟨resource, hresource, -⟩ := Outcome.exists_of_map_toOption
    (o := resourceUnit awkwardSignatures .jaxrs {} awkwardResource) (f := ResourceUnit.name)
    (b := "Awkward") (by decide +kernel)
  obtain ⟨bean, hbean, -⟩ := Outcome.exists_of_map_toOption (o := beanUnit {} awkwardBean)
    (f := BeanUnit.name) (b := "Awkward") (by decide +kernel)
  obtain ⟨enum, henum, htype⟩ := Outcome.exists_of_map_toOption (o := enumUnit {} awkwardEnum)
    (f := EnumUnit.valueType) (b := .text) (by decide +kernel)
  exact ⟨⟨resource, hresource, strings_readBack.resource _ _ _ _ _ hresource⟩,
    ⟨bean, hbean, strings_readBack.bean _ _ _ hbean⟩,
    enum, henum, htype, strings_readBack.enum _ _ _ henum htype⟩

end ApiContract.Source
