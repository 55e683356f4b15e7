import ApiContract.Settings
import ApiContract.Types.TypeRef

/-! # Types in source text

The source text of a type and the qualified names it needs. A unit imports what it
needs except what lies in its own package or in `java.lang`, sorted and once.
-/
namespace ApiContract.Source

/-- A piece of source text with the qualified names it needs. -/
structure Piece where
  text : String
  needs : List String := []
  deriving DecidableEq, Repr

/-- The last component of a qualified name. -/
def simpleName (qualified : String) : String :=
  String.ofList (Text.afterLast '.' qualified.toList)

/-- What precedes the last component; a simple name stands for itself. -/
def packageOf (qualified : String) : String :=
  String.ofList (Text.beforeLast '.' qualified.toList)

def isImported (package qualified : String) : Bool :=
  packageOf qualified != package && packageOf qualified != "java.lang"

/-- Keeps one of several names that are equal, in a sorted list. -/
def mergeEqual : List String → List String
  | a :: b :: rest => if a = b then mergeEqual (b :: rest) else a :: mergeEqual (b :: rest)
  | short => short

def importList (package : String) (needs : List String) : List String :=
  mergeEqual ((needs.filter (isImported package)).mergeSort fun a b => a ≤ b)

def around (start : String) (need : String) (element : Outcome Piece) : Outcome Piece := do
  let e ← element
  pure { text := start ++ e.text ++ ">", needs := need :: e.needs }

def given? (qualified : Option String) : Option String := qualified.filter fun q => !q.isEmpty

mutual

/-- The source text of a type; without a dialect no response type has a text. -/
def typePiece (dialect : Option Dialect) (settings : Settings) : TypeRef → Outcome Piece
  | .mk .void _ _ _ => .ok { text := "void" }
  | .mk .primitive name qualified _ => .ok { text := name, needs := (given? qualified).toList }
  | .mk .bean name _ _ => .ok { text := name, needs := [settings.beanPackage ++ "." ++ name] }
  | .mk .enum name _ _ => .ok { text := name, needs := [settings.beanPackage ++ "." ++ name] }
  | .mk .external name qualified _ => .ok { text := name, needs := [(given? qualified).getD name] }
  | .mk .list _ _ args => around "List<" "java.util.List" (elementPiece dialect settings args)
  | .mk .map _ _ args =>
    around "Map<String, " "java.util.Map" (elementPiece dialect settings args)
  | .mk .binary _ _ _ => .ok { text := "InputStream", needs := ["java.io.InputStream"] }
  | .mk .rawResponse _ _ _ =>
    match dialect with
    | some d => .ok { text := "Response", needs := [d.rawResponseType] }
    | none => .ok { text := "Object" }
  | .mk .async _ _ args =>
    match dialect with
    | some d =>
      around (simpleName d.asyncType ++ "<") d.asyncType (elementPiece dialect settings args)
    | none => .ok { text := "Object" }
  | .mk .any _ _ _ => .ok { text := "Object" }

def elementPiece (dialect : Option Dialect) (settings : Settings) :
    List TypeRef → Outcome Piece
  | [] => .error .outOfRange
  | t :: _ => typePiece dialect settings t

end

end ApiContract.Source
