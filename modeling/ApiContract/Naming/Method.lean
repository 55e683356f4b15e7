import ApiContract.Naming.Identifier
import ApiContract.Naming.Inflection
import ApiContract.Path.Template
import ApiContract.Text.Case

/-! # Method names from paths

A verb for the HTTP method and the words of the static segments. Every segment
but the last is in the singular; the last one is singular for a single member
and for a creation, and plural for a listing.
-/
namespace ApiContract.Naming

def verb (method : Word) (single : Bool) : Word :=
  if method = "get".toList then (if single then "get" else "list").toList
  else if method = "post".toList then "create".toList
  else if method = "put".toList || method = "patch".toList then "update".toList
  else method

def mapLast (f : Word → Word) : List Word → List Word
  | [] => []
  | [w] => [f w]
  | w :: rest => w :: mapLast f rest

/-- The words of a static segment, a stand-in when it has none. -/
def segmentWords (segment : Word) : List Word :=
  match splitWords segment with
  | [] => [['x']]
  | words => words

/-- The words of the segments, each inflected by whether it is the last. -/
def pathWords (last : Word → Word) : List Word → List Word
  | [] => []
  | [segment] => mapLast last (segmentWords segment)
  | segment :: rest => mapLast singularize (segmentWords segment) ++ pathWords last rest

def derivedWord (method path : Word) : Word :=
  let name := Text.lower method
  let segments := Path.staticSegmentChars path
  let single := Path.endsInParameter path
  let start := verb name (single || segments.isEmpty)
  if segments.isEmpty then start ++ "Root".toList
  else
    let last :=
      if single || start == "create".toList then singularize
      else if start == "list".toList then pluralize
      else id
    legal (start ++ (pathWords last segments).flatMap capitalize)

/-- The method name for an operation that does not name itself. -/
def derivedMethodName (method path : String) : String :=
  String.ofList (derivedWord method.toList path.toList)

end ApiContract.Naming
