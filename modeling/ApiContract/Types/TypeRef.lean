import ApiContract.Failure
import ApiContract.Text.Cut

/-! # Target types

A target type is a kind with a name and arguments. Lists, maps and asynchronous
types have one argument, their element.
-/
namespace ApiContract

inductive TypeKind
  | void
  | primitive
  | bean
  | enum
  | external
  | list
  | map
  | binary
  | rawResponse
  | async
  | any
  deriving DecidableEq, Repr

namespace TypeKind

def all : List TypeKind :=
  [void, primitive, bean, enum, external, list, map, binary, rawResponse, async, any]

def name : TypeKind → String
  | void => "void"
  | primitive => "primitive"
  | bean => "bean"
  | enum => "enum"
  | external => "external"
  | list => "list"
  | map => "map"
  | binary => "binary"
  | rawResponse => "raw_response"
  | async => "async"
  | any => "any"

end TypeKind

inductive TypeRef
  | mk (kind : TypeKind) (name : String) (qualified : Option String) (args : List TypeRef)

namespace TypeRef

def kind : TypeRef → TypeKind
  | mk k _ _ _ => k

def name : TypeRef → String
  | mk _ n _ _ => n

def qualified : TypeRef → Option String
  | mk _ _ q _ => q

def args : TypeRef → List TypeRef
  | mk _ _ _ a => a

def simple (kind : TypeKind) : TypeRef := mk kind "" none []

def void : TypeRef := simple .void

def binary : TypeRef := simple .binary

def rawResponse : TypeRef := simple .rawResponse

def any : TypeRef := simple .any

def bean (name : String) : TypeRef := mk .bean name none []

def enum (name : String) : TypeRef := mk .enum name none []

def list (element : TypeRef) : TypeRef := mk .list "" none [element]

def map (element : TypeRef) : TypeRef := mk .map "" none [element]

def async (element : TypeRef) : TypeRef := mk .async "" none [element]

/-- The type of a qualified name, called by its last component. -/
def external (qualified : String) : TypeRef :=
  mk .external (String.ofList (Text.afterLast '.' qualified.toList)) (some qualified) []

/-- A primitive type name, with the qualified name it is imported by. -/
abbrev PrimitiveName := String × Option String

def dateName : PrimitiveName := ("Date", some "java.util.Date")

def primitiveNames : List ((String × Option String) × PrimitiveName) := [
  (("string", none), ("String", none)),
  (("string", some "date"), dateName),
  (("string", some "date-time"), dateName),
  (("integer", none), ("Integer", none)),
  (("integer", some "int32"), ("Integer", none)),
  (("integer", some "int64"), ("Long", none)),
  (("number", none), ("Double", none)),
  (("number", some "double"), ("Double", none)),
  (("number", some "float"), ("Float", none)),
  (("boolean", none), ("Boolean", none))]

def primitiveName? (type : String) (format : Option String) : Option PrimitiveName :=
  (primitiveNames.find? fun e => e.1 == (type, format)).map (·.2)

/-- The type of a pair of a type and a format; an unknown format counts as none. -/
def primitive (type : String) (format : Option String) : TypeRef :=
  let found := ((primitiveName? type format).or (primitiveName? type none)).getD ("Object", none)
  mk .primitive found.1 found.2 []

end TypeRef

/-- The format of a primitive as a lookup sees it; a list or a map cannot be looked up. -/
def formatText (format : Tree) : Outcome (Option String) :=
  match format with
  | .scalar .null => .ok none
  | .scalar s => .ok (some s.display)
  | _ => .error .illTyped

instance : Inhabited TypeRef := ⟨.any⟩

structure BeanField where
  name : Scalar
  type : TypeRef
  required : Bool := false
  description : Tree := .text ""

structure Bean where
  name : String
  fields : List BeanField := []
  description : Tree := .text ""
  location : String := ""

structure EnumType where
  name : String
  values : List Tree := []
  description : Tree := .text ""
  location : String := ""

end ApiContract
