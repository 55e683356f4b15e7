import ApiContract.Doc.Comment
import ApiContract.Endpoint.Signature
import ApiContract.Source.TypeText
import ApiContract.Text.Escaped

/-! # Interfaces

A resource becomes an interface with one method for each endpoint, annotated with
its path, its HTTP method, its media types and the places of its parameters.
-/
namespace ApiContract.Source

def httpAnnotations : List (String × String) := [
  ("get", "GET"), ("post", "POST"), ("put", "PUT"), ("delete", "DELETE"), ("patch", "PATCH"),
  ("head", "HEAD"), ("options", "OPTIONS")]

def placeAnnotations : List (String × String) := [
  ("path", "PathParam"), ("header", "HeaderParam"), ("query", "QueryParam")]

structure MethodUnit where
  name : String
  comment : List String
  annotations : List String
  returnType : String
  parameters : List String

structure ResourceUnit where
  package : String
  imports : List String
  description : String
  name : String
  path : String
  methods : List MethodUnit

def literalOf (value : Scalar) : Outcome String := value.written.map Text.escaped

def braced (text : String) : String := "\x7b" ++ text ++ "\x7d"

def mediaAnnotationText (name : String) (types : List Scalar) : Outcome String := do
  let literals ← types.mapM literalOf
  match literals with
  | [only] => pure ("@" ++ name ++ "(" ++ only ++ ")")
  | _ => pure ("@" ++ name ++ "(" ++ braced (", ".intercalate literals) ++ ")")

def annotationPiece (dialect : Dialect) (simple text : String) : Piece :=
  { text, needs := [dialect.annotationName simple] }

def pathAnnotations (relative : String) : List Piece :=
  if relative.isEmpty then [] else [{ text := "@Path(" ++ Text.escaped relative ++ ")" }]

def httpAnnotationPiece (dialect : Dialect) (method : String) : Piece :=
  match Table.get? httpAnnotations method with
  | some simple => annotationPiece dialect simple ("@" ++ simple)
  | none =>
    annotationPiece dialect "HttpMethod" ("@HttpMethod(" ++ Text.escaped method.toUpper ++ ")")

def mediaAnnotations (dialect : Dialect) (name : String) (types : List Scalar) :
    Outcome (List Piece) :=
  if types.isEmpty then .ok []
  else (mediaAnnotationText name types).map fun text => [annotationPiece dialect name text]

def methodAnnotations (dialect : Dialect) (e : Endpoint) (signature : Signature) :
    Outcome (List Piece) := do
  let returned := signature.returnTypeFor dialect
  let produces ← mediaAnnotations dialect "Produces"
    (if returned.kind == .void then [] else signature.produces)
  let consumes ← mediaAnnotations dialect "Consumes" signature.consumes
  pure (pathAnnotations e.relativePath ++ [httpAnnotationPiece dialect e.operation.method] ++
    produces ++ consumes)

def placeAnnotationName? (place : Scalar) : Option String :=
  place.text?.bind (Table.get? placeAnnotations)

def parameterPiece (dialect : Dialect) (settings : Settings) (b : Binding) : Outcome Piece := do
  let type ← typePiece (some dialect) settings b.type
  let plain := type.text ++ " " ++ b.identifier
  match placeAnnotationName? b.place with
  | some simple => do
    let name ← literalOf b.name
    pure { text := "@" ++ simple ++ "(" ++ name ++ ") " ++ plain,
           needs := dialect.annotationName simple :: type.needs }
  | none => pure { text := plain, needs := type.needs }

/-- A method with the qualified names it needs. -/
def methodUnit (signatures : Table String Signature) (dialect : Dialect) (settings : Settings)
    (e : Endpoint) : Outcome (MethodUnit × List String) := do
  let op := e.operation
  let signature ← need (.unsigned op.label) (Table.get? signatures op.label)
  let annotations ← methodAnnotations dialect e signature
  let parameters ← signature.parameters.mapM (parameterPiece dialect settings)
  let comment ← Doc.operationComment op.description op.summary (Table.values op.responses)
  let returned ← typePiece (some dialect) settings (signature.returnTypeFor dialect)
  let unit : MethodUnit :=
    { name := signature.methodName, comment, annotations := annotations.map Piece.text,
      returnType := returned.text, parameters := parameters.map Piece.text }
  pure (unit, annotations.flatMap Piece.needs ++ parameters.flatMap Piece.needs ++ returned.needs)

def resourceUnit (signatures : Table String Signature) (dialect : Dialect) (settings : Settings)
    (resource : Resource) : Outcome ResourceUnit := do
  let methods ← resource.endpoints.mapM (methodUnit signatures dialect settings)
  let needs := dialect.annotationName "Path" :: methods.flatMap (·.2)
  pure { package := settings.javaPackage, imports := importList settings.javaPackage needs,
         description := dialect.description, name := resource.name, path := resource.path,
         methods := methods.map (·.1) }

end ApiContract.Source
