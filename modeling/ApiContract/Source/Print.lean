import ApiContract.Source.Enum
import ApiContract.Source.Resource

/-! # Printed units

The text of a unit, line by line: package, imports, comment, annotations, body.
Every line ends with a line break.
-/
namespace ApiContract.Source

def unlines (lines : List String) : String := String.join (lines.map (· ++ "\n"))

def importLines (imports : List String) : List String :=
  imports.map fun i => "import " ++ i ++ ";"

/-- A comment at an indentation; an empty line keeps the blank behind its star. -/
def commentLines (indent : String) (lines : List String) : List String :=
  if lines.isEmpty then []
  else (indent ++ "/**") :: lines.map (fun l => indent ++ " * " ++ l) ++ [indent ++ " */"]

/-- A method's comment, in which an empty line is a bare star. -/
def methodCommentLines (lines : List String) : List String :=
  if lines.isEmpty then []
  else "  /**" :: lines.map (fun l => if l.isEmpty then "   *" else "   * " ++ l) ++ ["   */"]

def methodLines (m : MethodUnit) : List String :=
  methodCommentLines m.comment ++ m.annotations.map ("  " ++ ·) ++
    ["  " ++ m.returnType ++ " " ++ m.name ++ "(" ++ ", ".intercalate m.parameters ++ ");"]

def separated : List (List String) → List String
  | [] => []
  | [part] => part
  | part :: rest => part ++ "" :: separated rest

def ResourceUnit.lines (u : ResourceUnit) : List String :=
  ["package " ++ u.package ++ ";", ""] ++ importLines u.imports ++
    ["", "/**", " * " ++ u.description, " */", "@Path(" ++ Text.escaped u.path ++ ")",
     "public interface " ++ u.name ++ " \x7b"] ++
    separated (u.methods.map methodLines) ++ ["\x7d"]

def ResourceUnit.print (u : ResourceUnit) : String := unlines u.lines

def propertyLine (f : FieldUnit) : String := "  @JsonProperty(" ++ f.literal ++ ")"

def fieldLines (f : FieldUnit) : List String :=
  "" :: commentLines "  " f.comment ++
    [propertyLine f, "  private " ++ f.type ++ " " ++ f.identifier ++ ";"]

def accessorLines (f : FieldUnit) : List String :=
  ["", propertyLine f,
   "  public " ++ f.type ++ " " ++ f.getter ++ "() \x7b",
   "    return " ++ f.identifier ++ ";",
   "  \x7d", "", propertyLine f,
   "  public void " ++ f.setter ++ "(" ++ f.type ++ " " ++ f.identifier ++ ") \x7b",
   "    this." ++ f.identifier ++ " = " ++ f.identifier ++ ";",
   "  \x7d"]

def BeanUnit.annotationLines (u : BeanUnit) : List String :=
  if u.fields.isEmpty then []
  else ["@JsonInclude(JsonInclude.Include.NON_NULL)",
        "@JsonPropertyOrder(" ++ braced (", ".intercalate (u.fields.map FieldUnit.literal)) ++ ")"]

def BeanUnit.lines (u : BeanUnit) : List String :=
  ["package " ++ u.package ++ ";", ""] ++
    (if u.imports.isEmpty then [] else importLines u.imports ++ [""]) ++
    commentLines "" u.comment ++ u.annotationLines ++
    ["public class " ++ u.name ++ " \x7b"] ++
    u.fields.flatMap fieldLines ++ u.fields.flatMap accessorLines ++ ["\x7d"]

def BeanUnit.print (u : BeanUnit) : String := unlines u.lines

/-- The constants, each closed by a comma and the last by a semicolon. -/
def constantLines : List ConstantUnit → List String
  | [] => ["  ;"]
  | [c] => ["  " ++ c.name ++ "(" ++ c.literal ++ ");"]
  | c :: rest => ("  " ++ c.name ++ "(" ++ c.literal ++ "),") :: constantLines rest

def EnumUnit.bodyLines (u : EnumUnit) : List String :=
  let type := u.valueType.name
  ["", "  private final " ++ type ++ " value;", "",
   "  " ++ u.name ++ "(" ++ type ++ " value) \x7b",
   "    this.value = value;",
   "  \x7d", "",
   "  @JsonValue",
   "  public " ++ type ++ " value() \x7b",
   "    return value;",
   "  \x7d", "",
   "  @JsonCreator",
   "  public static " ++ u.name ++ " fromValue(" ++ type ++ " value) \x7b",
   "    for (" ++ u.name ++ " constant : " ++ u.name ++ ".values()) \x7b",
   "      if (constant.value.equals(value)) \x7b",
   "        return constant;",
   "      \x7d",
   "    \x7d",
   "    throw new IllegalArgumentException(String.valueOf(value));",
   "  \x7d"]

def EnumUnit.lines (u : EnumUnit) : List String :=
  ["package " ++ u.package ++ ";", ""] ++ importLines u.imports ++ [""] ++
    commentLines "" u.comment ++ ["public enum " ++ u.name ++ " \x7b"] ++
    constantLines u.constants ++ u.bodyLines ++ ["\x7d"]

def EnumUnit.print (u : EnumUnit) : String := unlines u.lines

end ApiContract.Source
