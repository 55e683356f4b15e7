import ApiContract.Proofs.Outcome
import ApiContract.Proofs.Table
import ApiContract.Proofs.Text.Rewriting
import ApiContract.Source.Print

/-! # The lines of the printed source

What is printed is lines with a break behind each. The methods of an interface stand in it as
blocks of lines, in their order, and the last line of a block declares its method. No other line of
the interface declares anything: it belongs to a comment, is an annotation or stands around the
methods. A class has a block for each field and another one for its accessors, and an enum has a
line for each constant.
-/
namespace ApiContract.Source
open Text (InOrder)

/-- The text is the lines, with a break behind each. -/
def HasLines (text : String) (lines : List String) : Prop :=
  text.toList = lines.flatMap fun line => line.toList ++ ['\n']

theorem hasLines_unlines (lines : List String) : HasLines (unlines lines) lines := by
  simp [HasLines, unlines, List.flatMap_map]

theorem HasLines.append {a b : String} {x y : List String} (ha : HasLines a x)
    (hb : HasLines b y) : HasLines (a ++ b) (x ++ y) := by
  unfold HasLines at *
  rw [String.toList_append, ha, hb, List.flatMap_append]

/-- The line that declares a method. -/
def declaration (m : MethodUnit) : String :=
  "  " ++ m.returnType ++ " " ++ m.name ++ "(" ++ ", ".intercalate m.parameters ++ ");"

/-- The lines around the methods, and how the others start that declare none. -/
def isAside (line : String) : Bool :=
  ["", "\x7d", "/**", " */", "  /**", "   *", "   */"].contains line ||
    ["package ", "import ", " * ", "@", "public interface ", "   * ", "  @"].any
      fun start => start.toList.isPrefixOf line.toList

def Asides (lines : List String) : Prop := ∀ line ∈ lines, isAside line = true

/-- The lines declare the methods in their order, each in one line, and nothing else. -/
def DeclaresMethods (methods : List MethodUnit) (lines : List String) : Prop :=
  InOrder Asides (methods.map fun m => [declaration m]) lines

/-- The blocks stand in the lines in their order, one behind the other. -/
def HasBlocks (blocks : List (List String)) (lines : List String) : Prop :=
  InOrder (fun _ => True) blocks lines

section Rows

variable {α : Type} {P : List String → Prop} {part block : α → List String} {items : List α}

theorem inOrder_self (hnone : P []) (lines : List String) : InOrder P [lines] lines := by
  have hone : InOrder P [lines] ([] ++ (lines ++ [])) := .next hnone (.last hnone)
  simpa using hone

theorem inOrder_flatMap (hP : ∀ a b, P a → P b → P (a ++ b)) (hnone : P [])
    (h : ∀ a ∈ items, InOrder P [part a] (block a)) :
    InOrder P (items.map part) (items.flatMap block) := by
  induction items with
  | nil => exact .last hnone
  | cons a rest ih =>
    obtain ⟨hfirst, hrest⟩ := List.forall_mem_cons.mp h
    exact hfirst.append hP (ih hrest)

theorem inOrder_separated (hP : ∀ a b, P a → P b → P (a ++ b)) (hnone : P []) (hbreak : P [""])
    (h : ∀ a ∈ items, InOrder P [part a] (block a)) :
    InOrder P (items.map part) (separated (items.map block)) := by
  induction items with
  | nil => exact .last hnone
  | cons a rest ih =>
    obtain ⟨hfirst, hrest⟩ := List.forall_mem_cons.mp h
    cases rest with
    | nil => exact hfirst
    | cons b rest =>
      exact hfirst.append hP ((InOrder.last hbreak).append hP (ih hrest))

theorem HasBlocks.append {x y : List (List String)} {a b : List String} (ha : HasBlocks x a)
    (hb : HasBlocks y b) : HasBlocks (x ++ y) (a ++ b) :=
  InOrder.append (fun _ _ _ _ => trivial) ha hb

/-- What is in none of the blocks may stand on either side. -/
theorem HasBlocks.around {blocks : List (List String)} {lines : List String}
    (h : HasBlocks blocks lines) (before behind : List String) :
    HasBlocks blocks (before ++ lines ++ behind) := by
  have hbefore : HasBlocks [] before := .last trivial
  have hbehind : HasBlocks [] behind := .last trivial
  simpa using (hbefore.append h).append hbehind

end Rows

theorem Asides.append {a b : List String} (ha : Asides a) (hb : Asides b) : Asides (a ++ b) :=
  List.forall_mem_append.mpr ⟨ha, hb⟩

theorem DeclaresMethods.append {x y : List MethodUnit} {a b : List String}
    (ha : DeclaresMethods x a) (hb : DeclaresMethods y b) : DeclaresMethods (x ++ y) (a ++ b) := by
  unfold DeclaresMethods
  rw [List.map_append]
  exact InOrder.append (fun _ _ => Asides.append) ha hb

/-- Before the line of a method stand those of the methods before it, and behind it the others. -/
theorem DeclaresMethods.split {x y : List MethodUnit} {m : MethodUnit} {lines : List String}
    (h : DeclaresMethods (x ++ m :: y) lines) :
    ∃ before behind, lines = before ++ declaration m :: behind ∧ DeclaresMethods x before ∧
      DeclaresMethods y behind := by
  unfold DeclaresMethods at h
  rw [List.map_append, List.map_cons] at h
  exact h.split

theorem isAside_append {start : String}
    (h : start ∈ ["package ", "import ", " * ", "@", "public interface ", "   * ", "  @"])
    (rest : String) : isAside (start ++ rest) = true := by
  rw [isAside, Bool.or_eq_true, List.any_eq_true]
  refine Or.inr ⟨start, h, ?_⟩
  rw [List.isPrefixOf_iff_prefix, String.toList_append]
  exact List.prefix_append _ _

/-- The head of an interface, up to the line that opens it. -/
def ResourceUnit.head (u : ResourceUnit) : List String :=
  ["package " ++ u.package ++ ";", ""] ++ importLines u.imports ++
    ["", "/**", " * " ++ u.description, " */", "@Path(" ++ Text.escaped u.path ++ ")",
     "public interface " ++ u.name ++ " \x7b"]

theorem ResourceUnit.lines_eq (u : ResourceUnit) :
    u.lines = u.head ++ separated (u.methods.map methodLines) ++ ["\x7d"] := rfl

/-- The line of a method that declares it is the last one. -/
theorem methodLines_eq (m : MethodUnit) :
    methodLines m =
      (methodCommentLines m.comment ++ m.annotations.map ("  " ++ ·)) ++ [declaration m] := rfl

/-- An annotation begins with its sign. -/
def IsAnnotation (text : String) : Prop := ∃ rest, text = "@" ++ rest

theorem IsAnnotation.isAside {text : String} (h : IsAnnotation text) :
    isAside ("  " ++ text) = true := by
  obtain ⟨rest, rfl⟩ := h
  have hstart : "  @" = "  " ++ "@" := by decide
  rw [← String.append_assoc, ← hstart]
  exact isAside_append (by simp) rest

/-- Each method has its block. -/
theorem hasBlocks_lines (u : ResourceUnit) : HasBlocks (u.methods.map methodLines) u.lines := by
  have hmethods : HasBlocks (u.methods.map methodLines)
      (separated (u.methods.map methodLines)) :=
    inOrder_separated (fun _ _ _ _ => trivial) trivial trivial fun m _ => inOrder_self trivial _
  rw [u.lines_eq]
  exact hmethods.around u.head ["\x7d"]

/-- The annotations and the declaration of a method are lines of its block. -/
theorem mem_methodLines (m : MethodUnit) :
    (∀ text ∈ m.annotations, "  " ++ text ∈ methodLines m) ∧ declaration m ∈ methodLines m := by
  rw [methodLines_eq]
  refine ⟨fun text htext => ?_, by simp⟩
  simp only [List.mem_append, List.mem_map]
  exact Or.inl (Or.inr ⟨text, htext, rfl⟩)

theorem BeanUnit.hasBlocks_lines (u : BeanUnit) :
    HasBlocks (u.fields.map fieldLines ++ u.fields.map accessorLines) u.lines := by
  have heach : ∀ block : FieldUnit → List String,
      HasBlocks (u.fields.map block) (u.fields.flatMap block) := fun block =>
    inOrder_flatMap (fun _ _ _ _ => trivial) trivial fun f _ => inOrder_self trivial _
  have hall := ((heach fieldLines).append (heach accessorLines)).around
    (["package " ++ u.package ++ ";", ""] ++
      (if u.imports.isEmpty then [] else importLines u.imports ++ [""]) ++
      commentLines "" u.comment ++ u.annotationLines ++ ["public class " ++ u.name ++ " \x7b"])
    ["\x7d"]
  simpa [BeanUnit.lines] using hall

/-- A constant is called by its name, with its literal between brackets. -/
def IsConstantLine (c : ConstantUnit) (line : String) : Prop :=
  ∃ mark ∈ [",", ";"], line = "  " ++ c.name ++ "(" ++ c.literal ++ ")" ++ mark

theorem forall₂_constantLines {constants : List ConstantUnit} (h : constants ≠ []) :
    List.Forall₂ IsConstantLine constants (constantLines constants) := by
  have hclose : ")," = ")" ++ "," ∧ ");" = ")" ++ ";" := by decide
  induction constants with
  | nil => exact absurd rfl h
  | cons c rest ih =>
    cases rest with
    | nil =>
      refine .cons ⟨";", by simp, ?_⟩ .nil
      rw [hclose.2, ← String.append_assoc]
    | cons d rest =>
      refine .cons ⟨",", by simp, ?_⟩ (ih (List.cons_ne_nil _ _))
      rw [hclose.1, ← String.append_assoc]

theorem EnumUnit.hasBlocks_lines (u : EnumUnit) :
    HasBlocks [constantLines u.constants] u.lines := by
  have hconstants : HasBlocks [constantLines u.constants] (constantLines u.constants) :=
    inOrder_self trivial _
  have hall := hconstants.around
    (["package " ++ u.package ++ ";", ""] ++ importLines u.imports ++ [""] ++
      commentLines "" u.comment ++ ["public enum " ++ u.name ++ " \x7b"])
    (u.bodyLines ++ ["\x7d"])
  simpa [EnumUnit.lines] using hall

section Printed

variable {signatures : Table String Signature} {d : Dialect} {settings : Settings}

/-- What a method that is printed is made of. -/
structure Composed (d : Dialect) (settings : Settings) (e : Endpoint) (s : Signature)
    (m : MethodUnit) : Prop where
  annotations : ∃ pieces, methodAnnotations d e s = .ok pieces ∧
    m.annotations = pieces.map Piece.text
  parameters : ∃ pieces, s.parameters.mapM (parameterPiece d settings) = .ok pieces ∧
    m.parameters = pieces.map Piece.text
  returned : ∃ piece, typePiece (some d) settings (s.returnTypeFor d) = .ok piece ∧
    m.returnType = piece.text
  named : m.name = s.methodName

theorem methodUnit_eq_ok {e : Endpoint} {m : MethodUnit} {needs : List String}
    (h : methodUnit signatures d settings e = .ok (m, needs)) :
    ∃ s, Table.get? signatures e.operation.label = some s ∧ Composed d settings e s m := by
  obtain ⟨s, hs, h⟩ := Outcome.bind_eq_ok.mp h
  obtain ⟨annotations, hannotations, h⟩ := Outcome.bind_eq_ok.mp h
  obtain ⟨parameters, hparameters, h⟩ := Outcome.bind_eq_ok.mp h
  obtain ⟨comment, -, h⟩ := Outcome.bind_eq_ok.mp h
  obtain ⟨returned, hreturned, h⟩ := Outcome.bind_eq_ok.mp h
  cases h
  exact ⟨s, Outcome.need_eq_ok.mp hs,
    { annotations := ⟨annotations, hannotations, rfl⟩
      parameters := ⟨parameters, hparameters, rfl⟩
      returned := ⟨returned, hreturned, rfl⟩
      named := rfl }⟩

theorem resourceUnit_eq_ok {resource : Resource} {unit : ResourceUnit}
    (h : resourceUnit signatures d settings resource = .ok unit) :
    unit.path = resource.path ∧
      List.Forall₂ (fun e m => ∃ needs, methodUnit signatures d settings e = .ok (m, needs))
        resource.endpoints unit.methods := by
  obtain ⟨methods, hmethods, h⟩ := Outcome.bind_eq_ok.mp h
  cases h
  refine ⟨rfl, ?_⟩
  rw [List.forall₂_map_right_iff]
  refine (Outcome.forall₂_of_mapM hmethods).imp fun e printed he => ?_
  exact ⟨printed.2, he⟩

end Printed

end ApiContract.Source
