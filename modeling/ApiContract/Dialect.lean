import ApiContract.Failure

/-! # Dialects

A dialect says from which package the annotations of an interface come and which
shapes of return types it can express.
-/
namespace ApiContract

structure Dialect where
  name : String
  annotationPackage : String
  supportsAsync : Bool
  supportsRawResponse : Bool
  asyncType : String := "java.util.concurrent.CompletionStage"
  description : String :=
    "A JAX-RS interface. An implementation of this interface must be provided."
  deriving DecidableEq, Repr

namespace Dialect

def jaxrs : Dialect :=
  { name := "jaxrs", annotationPackage := "jakarta.ws.rs", supportsAsync := true,
    supportsRawResponse := true }

def thorntail : Dialect :=
  { name := "thorntail", annotationPackage := "javax.ws.rs", supportsAsync := false,
    supportsRawResponse := true }

def known : List Dialect := [jaxrs, thorntail]

def annotationName (d : Dialect) (simple : String) : String := d.annotationPackage ++ "." ++ simple

def rawResponseType (d : Dialect) : String := d.annotationPackage ++ ".core.Response"

/-- The known dialect of a name; a list or a map is no name at all. -/
def named (name : Tree) : Outcome Dialect :=
  match name with
  | .scalar s =>
    match known.find? fun d => s.text? == some d.name with
    | some d => .ok d
    | none =>
      .error (.telling [name] (.setting (.unknownDialect name (known.map Dialect.name)) "dialects"))
  | _ => .error .illTyped

end Dialect

end ApiContract
