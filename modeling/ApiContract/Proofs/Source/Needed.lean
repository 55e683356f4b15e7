import Mathlib.Data.List.Sort
import Mathlib.Data.String.Basic
import ApiContract.Proofs.Source.Annotations
import ApiContract.Proofs.Source.Imports
import ApiContract.Proofs.Source.Mentions

/-! # Imports are what is written

A unit needs the classes of its annotations, which can be read off the printed text, and the
classes of the types in it, at any depth. Its imports are these classes and no others, in
code-point order and each once, less those of its own package and of `java.lang`.
-/
namespace ApiContract.Source
open Outcome

variable {settings : Settings}

/-- An annotation that is written and needs what it is called, but for the path of a method,
whose class the interface needs anyway. -/
def Annotated (d : Dialect) (piece : Piece) : Prop :=
  ∃ simple, annotationName? piece.text = some simple ∧
    (piece.needs = [d.annotationName simple] ∨ simple = "Path" ∧ piece.needs = [])

section Interfaces

variable {d : Dialect}

theorem annotated_path (relative : String) :
    ∀ piece ∈ pathAnnotations relative, Annotated d piece := by
  intro piece hpiece
  unfold pathAnnotations at hpiece
  split at hpiece
  · cases hpiece
  · cases List.mem_singleton.mp hpiece
    refine ⟨"Path", ?_, Or.inr ⟨rfl, rfl⟩⟩
    rw [String.append_assoc]
    exact annotationName?_open "Path" (by decide) _

theorem annotated_http (method : String) : Annotated d (httpAnnotationPiece d method) := by
  unfold httpAnnotationPiece
  split
  · next simple hfound =>
    have hall : ∀ e ∈ httpAnnotations, annotationName? ("@" ++ e.2) = some e.2 := by decide
    exact ⟨simple, hall _ (Table.mem_of_get? hfound), Or.inl rfl⟩
  · refine ⟨"HttpMethod", ?_, Or.inl rfl⟩
    rw [annotationPiece, String.append_assoc]
    exact annotationName?_open "HttpMethod" (by decide) _

theorem annotated_media {name : String} (hname : name.toList.all Char.isAlphanum)
    {types : List Scalar} {pieces : List Piece} (h : mediaAnnotations d name types = .ok pieces) :
    ∀ piece ∈ pieces, Annotated d piece := by
  unfold mediaAnnotations at h
  split at h
  · cases h
    simp
  · obtain ⟨text, htext, rfl⟩ := map_eq_ok.mp h
    obtain ⟨literals, -, htext⟩ := bind_eq_ok.mp htext
    refine List.forall_mem_singleton.mpr ⟨name, ?_, Or.inl rfl⟩
    split at htext <;>
    · cases htext
      rw [String.append_assoc]
      exact annotationName?_open name hname _

theorem annotated_methodAnnotations {e : Endpoint} {s : Signature} {pieces : List Piece}
    (h : methodAnnotations d e s = .ok pieces) : ∀ piece ∈ pieces, Annotated d piece := by
  obtain ⟨produces, hproduces, h⟩ := bind_eq_ok.mp h
  obtain ⟨consumes, hconsumes, h⟩ := bind_eq_ok.mp h
  cases h
  have hwords : "Produces".toList.all Char.isAlphanum ∧ "Consumes".toList.all Char.isAlphanum := by
    decide
  simp only [List.forall_mem_append, List.forall_mem_singleton]
  exact ⟨⟨⟨annotated_path _, annotated_http _⟩, annotated_media hwords.1 hproduces⟩,
    annotated_media hwords.2 hconsumes⟩

/-- A class that a parameter needs as it is written: that of the annotation of its place, or one
of its type. -/
inductive ParameterNeeds (d : Dialect) (settings : Settings) (b : Binding) (text : String) :
    String → Prop
  | place {simple : String} (placed : (placeAnnotationName? b.place).isSome)
      (names : annotationName? text = some simple) :
      ParameterNeeds d settings b text (d.annotationName simple)
  | type {q : String} (needs : TypeNeeds (some d) settings b.type text q) :
      ParameterNeeds d settings b text q

/-- A class that a method needs as it is written. -/
inductive MethodNeeds (d : Dialect) (settings : Settings) (s : Signature) (m : MethodUnit) :
    String → Prop
  | annotated {line simple : String} (written : line ∈ m.annotations)
      (names : annotationName? line = some simple) :
      MethodNeeds d settings s m (d.annotationName simple)
  | parameter {row : Binding × String} {q : String} (written : row ∈ s.parameters.zip m.parameters)
      (needs : ParameterNeeds d settings row.1 row.2 q) : MethodNeeds d settings s m q
  | returned {q : String} (needs : TypeNeeds (some d) settings (s.returnTypeFor d) m.returnType q) :
      MethodNeeds d settings s m q

/-- A class that an interface needs as it is written: that of its own annotation, or one of a
method. -/
inductive InterfaceNeeds (signatures : Table String Signature) (d : Dialect) (settings : Settings)
    (resource : Resource) (unit : ResourceUnit) : String → Prop
  | own {simple : String} (written : "@Path(" ++ Text.escaped unit.path ++ ")" ∈ unit.lines)
      (names : annotationName? ("@Path(" ++ Text.escaped unit.path ++ ")") = some simple) :
      InterfaceNeeds signatures d settings resource unit (d.annotationName simple)
  | method {row : Endpoint × MethodUnit} {s : Signature} {q : String}
      (written : row ∈ resource.endpoints.zip unit.methods)
      (signed : Table.get? signatures row.1.operation.label = some s)
      (needs : MethodNeeds d settings s row.2 q) :
      InterfaceNeeds signatures d settings resource unit q

/-- What is made of a row of items needs a name just if one of the items does, as it is written. -/
theorem mem_flatMap_needs {α β γ : Type} {R : α → β → Prop} (view : β → γ)
    (needs : β → List String) (N : α → γ → Prop) {q : String} {items : List α} {made : List β}
    (h : List.Forall₂ R items made) (each : ∀ a b, R a b → (q ∈ needs b ↔ N a (view b))) :
    q ∈ made.flatMap needs ↔ ∃ row ∈ items.zip (made.map view), N row.1 row.2 := by
  induction h with
  | nil => simp
  | cons hab _ ih =>
    rw [List.flatMap_cons, List.mem_append, each _ _ hab, ih, List.map_cons, List.zip_cons_cons,
      List.exists_mem_cons_iff]

theorem mem_needs_annotations {pieces : List Piece} (h : ∀ piece ∈ pieces, Annotated d piece)
    {q : String} (hq : q ≠ d.annotationName "Path") :
    q ∈ pieces.flatMap Piece.needs ↔ ∃ line ∈ pieces.map Piece.text, ∃ simple,
      annotationName? line = some simple ∧ q = d.annotationName simple := by
  simp only [List.mem_flatMap, List.mem_map, exists_exists_and_eq_and]
  refine exists_congr fun piece => and_congr_right fun hpiece => ?_
  obtain ⟨simple, hname, hneeds | ⟨rfl, hneeds⟩⟩ := h piece hpiece
  · simp [hname, hneeds]
  · simp [hname, hneeds, hq]

theorem annotationName?_place {place : Scalar} {simple : String}
    (h : placeAnnotationName? place = some simple) (rest : String) :
    annotationName? ("@" ++ simple ++ "(" ++ rest) = some simple := by
  have hall : ∀ e ∈ placeAnnotations, e.2.toList.all Char.isAlphanum := by decide
  obtain ⟨text, -, h⟩ := Option.bind_eq_some_iff.mp h
  exact annotationName?_open simple (hall _ (Table.mem_of_get? h)) rest

theorem mem_needs_parameterPiece {b : Binding} {piece : Piece} {q : String}
    (h : parameterPiece d settings b = .ok piece) :
    q ∈ piece.needs ↔ ParameterNeeds d settings b piece.text q := by
  obtain ⟨type, htype, h⟩ := bind_eq_ok.mp h
  dsimp only at h
  split at h
  · next simple hplace =>
    obtain ⟨literal, -, h⟩ := bind_eq_ok.mp h
    cases h
    have hname : annotationName? ("@" ++ simple ++ "(" ++ literal ++ ") " ++
        (type.text ++ " " ++ b.identifier)) = some simple := by
      rw [String.append_assoc, String.append_assoc]
      exact annotationName?_place hplace _
    have hwithin : type.text.toList <:+: ("@" ++ simple ++ "(" ++ literal ++ ") " ++
        (type.text ++ " " ++ b.identifier)).toList := by
      refine ⟨("@" ++ simple ++ "(" ++ literal ++ ") ").toList, (" " ++ b.identifier).toList, ?_⟩
      simp only [String.toList_append, List.append_assoc]
    rw [List.mem_cons, mem_needs_typePiece b.type htype hwithin]
    constructor
    · rintro (rfl | hneeds)
      · exact .place (by rw [hplace]; rfl) hname
      · exact .type hneeds
    · rintro (⟨-, names⟩ | hneeds)
      · rw [hname] at names
        cases names
        exact Or.inl rfl
      · exact Or.inr hneeds
  · next hplace =>
    cases h
    have hwithin : type.text.toList <:+: (type.text ++ " " ++ b.identifier).toList := by
      refine ⟨[], (" " ++ b.identifier).toList, ?_⟩
      simp only [String.toList_append, List.append_assoc, List.nil_append]
    rw [mem_needs_typePiece b.type htype hwithin]
    constructor
    · exact .type
    · rintro (⟨placed, -⟩ | hneeds)
      · rw [hplace] at placed
        cases placed
      · exact hneeds

theorem mem_needs_methodUnit {signatures : Table String Signature} {e : Endpoint} {m : MethodUnit}
    {needs : List String} (h : methodUnit signatures d settings e = .ok (m, needs)) {q : String}
    (hq : q ≠ d.annotationName "Path") :
    q ∈ needs ↔ ∃ s, Table.get? signatures e.operation.label = some s ∧
      MethodNeeds d settings s m q := by
  obtain ⟨s, hs, h⟩ := bind_eq_ok.mp h
  obtain ⟨annotations, hannotations, h⟩ := bind_eq_ok.mp h
  obtain ⟨parameters, hparameters, h⟩ := bind_eq_ok.mp h
  obtain ⟨comment, -, h⟩ := bind_eq_ok.mp h
  obtain ⟨returned, hreturned, h⟩ := bind_eq_ok.mp h
  cases h
  have hrows : q ∈ parameters.flatMap Piece.needs ↔
      ∃ row ∈ s.parameters.zip (parameters.map Piece.text),
        ParameterNeeds d settings row.1 row.2 q :=
    mem_flatMap_needs Piece.text Piece.needs (fun b text => ParameterNeeds d settings b text q)
      (forall₂_of_mapM hparameters) fun _ _ => mem_needs_parameterPiece
  rw [List.mem_append, List.mem_append, hrows,
    mem_needs_annotations (annotated_methodAnnotations hannotations) hq,
    mem_needs_typePiece _ hreturned (List.infix_refl _)]
  constructor
  · rintro ((⟨line, hline, simple, hname, rfl⟩ | ⟨row, hrow, hneeds⟩) | hneeds)
    · exact ⟨s, need_eq_ok.mp hs, .annotated hline hname⟩
    · exact ⟨s, need_eq_ok.mp hs, .parameter hrow hneeds⟩
    · exact ⟨s, need_eq_ok.mp hs, .returned hneeds⟩
  · rintro ⟨s', hs', hneeds⟩
    obtain rfl := Option.some.inj ((need_eq_ok.mp hs).symm.trans hs')
    cases hneeds with
    | annotated written names => exact Or.inl (Or.inl ⟨_, written, _, names, rfl⟩)
    | parameter written needs => exact Or.inl (Or.inr ⟨_, written, needs⟩)
    | returned needs => exact Or.inr needs

/-- An interface needs the class of its own annotation and those that its methods need. -/
theorem needs_of_resourceUnit {signatures : Table String Signature} {resource : Resource}
    {unit : ResourceUnit} (h : resourceUnit signatures d settings resource = .ok unit) :
    ∃ needs, unit.imports = importList settings.javaPackage needs ∧
      ∀ q, q ∈ needs ↔ InterfaceNeeds signatures d settings resource unit q := by
  obtain ⟨methods, hmethods, h⟩ := bind_eq_ok.mp h
  cases h
  refine ⟨_, rfl, fun q => ?_⟩
  have hown : ∀ path, annotationName? ("@Path(" ++ Text.escaped path ++ ")") = some "Path" := by
    intro path
    rw [String.append_assoc]
    exact annotationName?_open "Path" (by decide) _
  by_cases hq : q = d.annotationName "Path"
  · subst hq
    exact iff_of_true List.mem_cons_self (.own (mem_lines_path _) (hown _))
  have hrows : q ∈ methods.flatMap Prod.snd ↔
      ∃ row ∈ resource.endpoints.zip (methods.map Prod.fst),
        ∃ s, Table.get? signatures row.1.operation.label = some s ∧
          MethodNeeds d settings s row.2 q :=
    mem_flatMap_needs Prod.fst Prod.snd (fun e m => ∃ s,
      Table.get? signatures e.operation.label = some s ∧ MethodNeeds d settings s m q)
      (forall₂_of_mapM hmethods) fun _ _ hmethod => mem_needs_methodUnit hmethod hq
  rw [List.mem_cons, or_iff_right hq, hrows]
  constructor
  · rintro ⟨row, hrow, s, hs, hneeds⟩
    exact .method hrow hs hneeds
  · rintro (⟨-, names⟩ | ⟨written, signed, needs⟩)
    · rw [hown] at names
      cases names
      exact absurd rfl hq
    · exact ⟨_, written, _, signed, needs⟩

end Interfaces

/-- A class that a bean needs as it is written: that of an annotation in a line of it, or one of the
type of a property. -/
inductive ClassNeeds (settings : Settings) (bean : Bean) (unit : BeanUnit) : String → Prop
  | annotated {line simple : String} (written : line ∈ unit.lines)
      (names : annotationName? line = some simple) :
      ClassNeeds settings bean unit (jackson simple)
  | field {row : BeanField × FieldUnit} {q : String} (written : row ∈ bean.fields.zip unit.fields)
      (needs : TypeNeeds none settings row.1.type row.2.type q) :
      ClassNeeds settings bean unit q

theorem annotationName?_property (f : FieldUnit) :
    annotationName? (propertyLine f) = some "JsonProperty" := by
  unfold propertyLine
  rw [String.append_assoc]
  exact annotationName?_append (c := '(') (by decide) (by decide) (by decide) _

theorem plain_commentLines {indent : String} (hindent : indent ∈ ["", "  "])
    (comment : List String) :
    ∀ line ∈ commentLines indent comment, annotationName? line = none := by
  have hlines : ∀ indent ∈ ["", "  "], annotationName? (indent ++ "/**") = none ∧
      startsPlain (indent ++ " * ") = true ∧ annotationName? (indent ++ " */") = none := by decide
  obtain ⟨hfirst, hline, hlast⟩ := hlines indent hindent
  unfold commentLines
  split
  · simp
  · rw [List.forall_mem_append, List.forall_mem_cons, List.forall_mem_map,
    List.forall_mem_singleton]
    exact ⟨⟨hfirst, fun l _ => annotationName?_plain hline l⟩, hlast⟩

theorem plain_fieldLines (f : FieldUnit) : ∀ line ∈ fieldLines f ++ accessorLines f,
    annotationName? line = none ∨ line = propertyLine f := by
  have hplain : ∀ start ∈ ["  private ", "  public ", "    return ", "  public void ", "    this."],
      ∀ rest, annotationName? (start ++ rest) = none := annotationName?_starts (by decide)
  have hempty : annotationName? "" = none := by decide
  have hclose : annotationName? "  \x7d" = none := by decide
  have hcomment : ∀ line ∈ commentLines "  " f.comment, annotationName? line = none :=
    plain_commentLines (by simp) f.comment
  simp only [fieldLines, accessorLines, String.append_assoc, List.forall_mem_append,
    List.forall_mem_cons]
  simp +contextual [hplain, hempty, hclose, hcomment]

/-- An annotation in a class stands above it or above a property or an accessor. -/
theorem annotations_of_lines {unit : BeanUnit} {line simple : String} (hline : line ∈ unit.lines)
    (h : annotationName? line = some simple) :
    line ∈ unit.annotationLines ∨ ∃ f ∈ unit.fields, line = propertyLine f := by
  have hplain : ∀ start ∈ ["package ", "import ", "public class "],
      ∀ rest, annotationName? (start ++ rest) = none := annotationName?_starts (by decide)
  have hempty : annotationName? "" = none := by decide
  have hclose : annotationName? "\x7d" = none := by decide
  have hheader : ∀ line ∈ ["package " ++ unit.package ++ ";", ""], annotationName? line = none := by
    simp [String.append_assoc, hplain, hempty]
  have himports : ∀ line ∈ importLines unit.imports ++ [""], annotationName? line = none := by
    rw [List.forall_mem_append]
    simp [importLines, String.append_assoc, hplain, hempty]
  have hclass : annotationName? ("public class " ++ unit.name ++ " \x7b") = none := by
    simp [String.append_assoc, hplain]
  have hproperty : ∀ f ∈ unit.fields, line ∈ fieldLines f ++ accessorLines f →
      ∃ f ∈ unit.fields, line = propertyLine f := fun f hf hmem =>
    ⟨f, hf, (plain_fieldLines f line hmem).resolve_left (by simp [h])⟩
  have hplace : annotationName? line ≠ none := by simp [h]
  simp only [BeanUnit.lines, List.mem_append, List.mem_flatMap] at hline
  rcases hline with ((((((hline | hline) | hline) | hline) | hline) | ⟨f, hf, hline⟩) |
    ⟨f, hf, hline⟩) | hline
  · exact absurd (hheader line hline) hplace
  · split at hline
    · cases hline
    · exact absurd (himports line hline) hplace
  · exact absurd (plain_commentLines (by simp) _ line hline) hplace
  · exact Or.inl hline
  · cases List.mem_singleton.mp hline
    exact absurd hclass hplace
  · exact Or.inr (hproperty f hf (List.mem_append_left _ hline))
  · exact Or.inr (hproperty f hf (List.mem_append_right _ hline))
  · cases List.mem_singleton.mp hline
    exact absurd hclose hplace

theorem annotationNames_of_annotationLines {unit : BeanUnit} (hne : unit.fields ≠ []) :
    unit.annotationLines.filterMap annotationName? = ["JsonInclude", "JsonPropertyOrder"] := by
  have horder : ∀ rest,
      annotationName? ("@JsonPropertyOrder(" ++ rest) = some "JsonPropertyOrder" :=
    fun rest => annotationName?_open "JsonPropertyOrder" (by decide) rest
  have hinclude : annotationName? "@JsonInclude(JsonInclude.Include.NON_NULL)" =
      some "JsonInclude" := by decide
  rw [BeanUnit.annotationLines, if_neg (by simpa using hne), String.append_assoc]
  simp [horder, hinclude]

theorem annotationLines_subset (unit : BeanUnit) : unit.annotationLines ⊆ unit.lines := by
  intro line hline
  simp [BeanUnit.lines, hline]

theorem propertyLine_mem_lines {unit : BeanUnit} {f : FieldUnit} (hf : f ∈ unit.fields) :
    propertyLine f ∈ unit.lines := by
  have hline : propertyLine f ∈ unit.fields.flatMap fieldLines :=
    List.mem_flatMap.mpr ⟨f, hf, by simp [fieldLines]⟩
  simp [BeanUnit.lines, hline]

/-- A class with a property has all three annotations, and one without has none. -/
theorem annotationName_lines {unit : BeanUnit} {simple : String} :
    (∃ line ∈ unit.lines, annotationName? line = some simple) ↔
      unit.fields ≠ [] ∧ simple ∈ ["JsonInclude", "JsonProperty", "JsonPropertyOrder"] := by
  constructor
  · rintro ⟨line, hline, h⟩
    obtain hline | ⟨f, hf, rfl⟩ := annotations_of_lines hline h
    · have hne : unit.fields ≠ [] := by
        intro hempty
        simp [BeanUnit.annotationLines, hempty] at hline
      have hsimple := List.mem_filterMap.mpr ⟨line, hline, h⟩
      rw [annotationNames_of_annotationLines hne] at hsimple
      refine ⟨hne, ?_⟩
      simp only [List.mem_cons, List.not_mem_nil, or_false] at hsimple ⊢
      tauto
    · rw [annotationName?_property] at h
      cases h
      exact ⟨List.ne_nil_of_mem hf, by simp⟩
  · rintro ⟨hne, hsimple⟩
    have habove : ∀ simple ∈ ["JsonInclude", "JsonPropertyOrder"],
        ∃ line ∈ unit.lines, annotationName? line = some simple := by
      intro simple hmem
      rw [← annotationNames_of_annotationLines hne] at hmem
      obtain ⟨line, hline, h⟩ := List.mem_filterMap.mp hmem
      exact ⟨line, annotationLines_subset unit hline, h⟩
    obtain ⟨f, hf⟩ := List.exists_mem_of_ne_nil _ hne
    have hproperty := annotationName?_property f
    simp only [List.mem_cons, List.not_mem_nil, or_false] at hsimple
    obtain rfl | rfl | rfl := hsimple
    · exact habove _ (by simp)
    · exact ⟨_, propertyLine_mem_lines hf, hproperty⟩
    · exact habove _ (by simp)

theorem mem_beanAnnotations {unit : BeanUnit} {q : String} :
    q ∈ (if unit.fields.isEmpty then [] else beanAnnotations) ↔
      ∃ simple, (∃ line ∈ unit.lines, annotationName? line = some simple) ∧ jackson simple = q := by
  simp only [annotationName_lines]
  by_cases hempty : unit.fields = []
  · simp [hempty]
  · have hall : beanAnnotations =
        ["JsonInclude", "JsonProperty", "JsonPropertyOrder"].map jackson := rfl
    rw [if_neg (by simpa using hempty), hall, List.mem_map]
    exact exists_congr fun simple => and_congr_left' (iff_and_self.mpr fun _ => hempty)

/-- What a property makes: a field with the text of its type, and what that needs. -/
def MakesField (settings : Settings) (f : BeanField) (made : FieldUnit × List String) : Prop :=
  ∃ piece, typePiece none settings f.type = .ok piece ∧ made.1.type = piece.text ∧
    made.2 = piece.needs

theorem made_addField {state next : FieldState} {f : BeanField}
    (h : addField settings state f = .ok next) :
    ∃ row, MakesField settings f row ∧ next.fields = state.fields ++ [row.1] ∧
      next.needs = state.needs ++ row.2 := by
  obtain ⟨name, -, h⟩ := bind_eq_ok.mp h
  obtain ⟨comment, -, h⟩ := bind_eq_ok.mp h
  obtain ⟨piece, hpiece, h⟩ := bind_eq_ok.mp h
  cases h
  refine ⟨(_, piece.needs), ?_, rfl, rfl⟩
  exact ⟨piece, hpiece, rfl, rfl⟩

theorem made_addFields {fields : List BeanField} {state final : FieldState}
    (h : fields.foldlM (addField settings) state = .ok final) :
    ∃ made, List.Forall₂ (MakesField settings) fields made ∧
      final.fields = state.fields ++ made.map Prod.fst ∧
      final.needs = state.needs ++ made.flatMap Prod.snd := by
  induction fields generalizing state with
  | nil =>
    cases h
    exact ⟨[], .nil, by simp, by simp⟩
  | cons f rest ih =>
    rw [List.foldlM_cons] at h
    obtain ⟨next, hnext, h⟩ := bind_eq_ok.mp h
    obtain ⟨row, hrow, hfield, hneed⟩ := made_addField hnext
    obtain ⟨made, hmade, hfields, hneeds⟩ := ih h
    refine ⟨row :: made, .cons hrow hmade, ?_, ?_⟩
    · rw [hfields, hfield, List.map_cons, List.append_assoc, List.singleton_append]
    · rw [hneeds, hneed, List.flatMap_cons, List.append_assoc]

/-- A class needs its annotations and what the types of its properties need. -/
theorem needs_of_beanUnit {bean : Bean} {unit : BeanUnit} (h : beanUnit settings bean = .ok unit) :
    ∃ needs, unit.imports = importList settings.beanPackage needs ∧
      ∀ q, q ∈ needs ↔ ClassNeeds settings bean unit q := by
  have hlength : bean.fields.length = unit.fields.length := (fields_hold_names h).length_eq
  have hempty : bean.fields.isEmpty = unit.fields.isEmpty := by
    rw [Bool.eq_iff_iff, List.isEmpty_iff_length_eq_zero, List.isEmpty_iff_length_eq_zero, hlength]
  obtain ⟨final, hfinal, h⟩ := bind_eq_ok.mp h
  obtain ⟨comment, -, h⟩ := bind_eq_ok.mp h
  obtain ⟨made, hmade, hfields, hneeds⟩ := made_addFields hfinal
  have hunit : unit.fields = final.fields := by
    cases h
    rfl
  have himports : unit.imports = importList settings.beanPackage
      ((if unit.fields.isEmpty then [] else beanAnnotations) ++ final.needs) := by
    rw [← hempty]
    cases h
    rfl
  refine ⟨_, himports, fun q => ?_⟩
  have hrows : q ∈ final.needs ↔ ∃ row ∈ bean.fields.zip unit.fields,
      TypeNeeds none settings row.1.type row.2.type q := by
    rw [hunit, hfields, hneeds, List.nil_append, List.nil_append]
    refine mem_flatMap_needs Prod.fst Prod.snd
      (fun f u => TypeNeeds none settings f.type u.type q) hmade ?_
    rintro f row ⟨piece, hpiece, htype, hneeds⟩
    rw [htype, hneeds]
    exact mem_needs_typePiece f.type hpiece (List.infix_refl _)
  rw [List.mem_append, hrows, mem_beanAnnotations]
  constructor
  · rintro (⟨simple, ⟨line, hline, hname⟩, rfl⟩ | ⟨row, hrow, hneeds⟩)
    · exact .annotated hline hname
    · exact .field hrow hneeds
  · rintro (⟨written, names⟩ | ⟨written, needs⟩)
    · exact Or.inl ⟨_, ⟨_, written, names⟩, rfl⟩
    · exact Or.inr ⟨_, written, needs⟩

/-- A name lies in the package that is left without its last component; a name of one component
lies in itself. -/
def LiesIn (package q : String) : Prop :=
  (∃ n : String, '.' ∉ n.toList ∧ q = package ++ "." ++ n) ∨ '.' ∉ q.toList ∧ q = package

/-- The imports of a unit: in code-point order, each once, and just the names that are needed from
other packages than its own and `java.lang`. -/
structure ImportsExactly (package : String) (needed : String → Prop) (imports : List String) :
    Prop where
  ordered : imports.Pairwise fun a b => a.toList < b.toList
  exact : ∀ q, q ∈ imports ↔ needed q ∧ ¬ LiesIn package q ∧ ¬ LiesIn "java.lang" q

theorem exists_lastCut {q : String} (h : '.' ∈ q.toList) :
    ∃ package n : String, '.' ∉ n.toList ∧ q = package ++ "." ++ n := by
  obtain ⟨last, rest, hcut, hlast⟩ := List.eq_append_cons_of_mem (List.mem_reverse.mpr h)
  refine ⟨String.ofList rest.reverse, String.ofList last.reverse, by simpa using hlast, ?_⟩
  rw [← String.toList_inj, ← List.reverse_inj, hcut]
  simp

theorem packageOf_eq_iff {package q : String} : packageOf q = package ↔ LiesIn package q := by
  constructor
  · rintro rfl
    by_cases h : '.' ∈ q.toList
    · obtain ⟨package, n, hn, rfl⟩ := exists_lastCut h
      exact Or.inl ⟨n, hn, by rw [packageOf_below hn]⟩
    · refine Or.inr ⟨h, ?_⟩
      rw [packageOf, Text.beforeLast, if_neg h, String.ofList_toList]
  · rintro (⟨n, hn, rfl⟩ | ⟨h, rfl⟩)
    · exact packageOf_below hn
    · rw [packageOf, Text.beforeLast, if_neg h, String.ofList_toList]

theorem isImported_iff {package q : String} :
    isImported package q = true ↔ ¬ LiesIn package q ∧ ¬ LiesIn "java.lang" q := by
  rw [isImported, Bool.and_eq_true, bne_iff_ne, bne_iff_ne, Ne, Ne, packageOf_eq_iff,
    packageOf_eq_iff]

theorem pairwise_mergeEqual {names : List String} (h : names.Pairwise (· ≤ ·)) :
    (mergeEqual names).Pairwise (· < ·) := by
  induction names using mergeEqual.induct with
  | case1 a rest ih =>
    rw [mergeEqual, if_pos rfl]
    exact ih h.of_cons
  | case2 a b rest hne ih =>
    rw [mergeEqual, if_neg hne, List.pairwise_cons]
    refine ⟨fun c hc => ?_, ih h.of_cons⟩
    have hab : a ≤ b := List.rel_of_pairwise_cons h List.mem_cons_self
    rcases List.mem_cons.mp ((mem_mergeEqual _).mp hc) with rfl | hc
    · exact lt_of_le_of_ne hab hne
    · exact lt_of_lt_of_le (lt_of_le_of_ne hab hne) (List.rel_of_pairwise_cons h.of_cons hc)
  | case3 short hshort =>
    rw [mergeEqual]
    · cases short with
      | nil => exact .nil
      | cons a tail =>
        cases tail with
        | nil => exact List.pairwise_singleton _ a
        | cons b rest => exact absurd rfl (hshort a b rest)
    · exact hshort

theorem pairwise_importList (package : String) (needs : List String) :
    (importList package needs).Pairwise fun a b => a.toList < b.toList := by
  have hsorted := List.pairwise_mergeSort' (· ≤ ·) (needs.filter (isImported package))
  exact (pairwise_mergeEqual hsorted).imp String.lt_iff_toList_lt.mp

/-- There is one import list with given names. -/
theorem importList_eq_of_sorted {package : String} {needs sorted : List String}
    (hsorted : sorted.Pairwise fun a b => a.toList < b.toList)
    (hneeds : ∀ q ∈ needs, isImported package q = true → q ∈ sorted)
    (hall : ∀ q ∈ sorted, q ∈ needs ∧ isImported package q = true) :
    importList package needs = sorted := by
  refine ((pairwise_importList package needs).imp String.lt_iff_toList_lt.mpr).eq_of_mem_iff
    (hsorted.imp String.lt_iff_toList_lt.mpr) fun q => ?_
  rw [mem_importList]
  exact ⟨fun h => hneeds q h.1 h.2, hall q⟩

theorem importsExactly_importList {package : String} {needs : List String} {needed : String → Prop}
    (h : ∀ q, q ∈ needs ↔ needed q) : ImportsExactly package needed (importList package needs) where
  ordered := pairwise_importList package needs
  exact q := by rw [mem_importList, h, isImported_iff]

/-- A unit imports the classes that its annotations and types need as they are written, and no
other, but for those of its own package and of `java.lang`. -/
theorem imports_exactly :
    (∀ signatures d resource unit, resourceUnit signatures d settings resource = .ok unit →
      ImportsExactly settings.javaPackage (InterfaceNeeds signatures d settings resource unit)
        unit.imports) ∧
    ∀ bean unit, beanUnit settings bean = .ok unit →
      ImportsExactly settings.beanPackage (ClassNeeds settings bean unit) unit.imports := by
  constructor
  · intro signatures d resource unit h
    obtain ⟨needs, himports, hneeds⟩ := needs_of_resourceUnit h
    exact himports ▸ importsExactly_importList hneeds
  · intro bean unit h
    obtain ⟨needs, himports, hneeds⟩ := needs_of_beanUnit h
    exact himports ▸ importsExactly_importList hneeds

/-- Interfaces go into the package of the classes that they mention. -/
def sharedPackage : Settings := { javaPackage := "org.acme", beansPackage := some "org.acme" }

/-- A method that needs classes at all its places, one of them twice. -/
def watchedResource : Resource × Table String Signature :=
  ({ name := "EventResource", path := "/events", key := .null,
     endpoints := [{ operation := { method := "trace", path := "/events" }, methodName := "trace",
                     relativePath := "" }] },
   [("TRACE /events",
     { methodName := "trace", isAsync := true, consumes := [.text "text/plain"],
       returnType := .map (.list (.bean "Event")),
       parameters := [{ name := .text "since", identifier := "since", place := .text "query",
                        type := .list (.primitive "string" (some "date")) }] })])

/-- Properties of types from outside, one of which needs no import. -/
def watchedBean : Bean :=
  { name := "Event",
    fields := [{ name := .text "size", type := .external "java.lang.Number" },
               { name := .text "at", type := .map (.external "org.joda.time.Instant") }] }

theorem imports_exactly_watched :
    (∃ unit, resourceUnit watchedResource.2 .jaxrs sharedPackage watchedResource.1 = .ok unit ∧
      unit.imports = ["jakarta.ws.rs.Consumes", "jakarta.ws.rs.HttpMethod", "jakarta.ws.rs.Path",
        "jakarta.ws.rs.QueryParam", "java.util.Date", "java.util.List", "java.util.Map",
        "java.util.concurrent.CompletionStage"] ∧
      ImportsExactly "org.acme" (InterfaceNeeds watchedResource.2 .jaxrs sharedPackage
        watchedResource.1 unit) unit.imports) ∧
    ∃ unit, beanUnit sharedPackage watchedBean = .ok unit ∧
      unit.imports = ["com.fasterxml.jackson.annotation.JsonInclude",
        "com.fasterxml.jackson.annotation.JsonProperty",
        "com.fasterxml.jackson.annotation.JsonPropertyOrder", "java.util.Map",
        "org.joda.time.Instant"] ∧
      ImportsExactly "org.acme" (ClassNeeds sharedPackage watchedBean unit) unit.imports := by
  have hexact := @imports_exactly sharedPackage
  constructor
  · obtain ⟨unit, hunit, -⟩ := exists_of_map_toOption
      (o := resourceUnit watchedResource.2 .jaxrs sharedPackage watchedResource.1)
      (f := ResourceUnit.name) (b := "EventResource") (by decide +kernel)
    obtain ⟨-, needs, hneeds, himports⟩ := parts_of_resourceUnit hunit
    obtain ⟨_, hwritten, rfl⟩ := exists_of_map_toOption
      (o := resourceNeeds watchedResource.2 .jaxrs sharedPackage watchedResource.1) (f := id)
      (b := ["jakarta.ws.rs.Path", "jakarta.ws.rs.HttpMethod", "jakarta.ws.rs.Consumes",
        "jakarta.ws.rs.QueryParam", "java.util.List", "java.util.Date",
        "java.util.concurrent.CompletionStage", "java.util.Map", "java.util.List",
        "org.acme.Event"]) (by decide +kernel)
    cases hneeds.symm.trans hwritten
    refine ⟨unit, hunit, ?_, hexact.1 _ _ _ _ hunit⟩
    exact himports.trans (importList_eq_of_sorted (by decide) (by decide) (by decide))
  · obtain ⟨unit, hunit, -⟩ := exists_of_map_toOption
      (o := beanUnit sharedPackage watchedBean) (f := BeanUnit.name) (b := "Event")
      (by decide +kernel)
    obtain ⟨-, needs, hneeds, himports⟩ := parts_of_beanUnit hunit
    obtain ⟨_, hwritten, rfl⟩ := exists_of_map_toOption
      (o := beanNeeds sharedPackage watchedBean) (f := id)
      (b := beanAnnotations ++ ["java.lang.Number", "java.util.Map", "org.joda.time.Instant"])
      (by decide +kernel)
    cases hneeds.symm.trans hwritten
    refine ⟨unit, hunit, ?_, hexact.2 _ _ hunit⟩
    exact himports.trans (importList_eq_of_sorted (by decide) (by decide) (by decide))

end ApiContract.Source
