import ApiContract.Settings
import ApiContract.Text.Case
import ApiContract.Tree.JsonReader
import ApiContract.Yaml.Document

/-! # Input files

A contract is read as JSON when its file says so by its suffix, else in the wider
format, in which an empty document counts as an empty map. Settings are always
read in the wider format.
-/
namespace ApiContract

def Text.unifyBreaks : List Char → List Char
  | [] => []
  | '\r' :: '\n' :: rest => '\n' :: unifyBreaks rest
  | c :: rest => (if c = '\r' then '\n' else c) :: unifyBreaks rest

namespace Input

/-- The failure that a problem of a text is, with the one for malformed texts. -/
def failureOf (malformed : Failure) : Yaml.Problem → Failure
  | .malformed => malformed
  | .notNumber => .notNumber
  | .missing => .missing
  | .illTyped => .illTyped
  | .outOfRange => .outOfRange
  | .tooLarge => .tooLarge
  | .endless => .endless

def jsonFailure (malformed : Failure) : JsonReader.Fault → Failure
  | .malformed => malformed
  | .tooLong => .tooLong

/-- The last component of a path from its last point on, when both have more to them. -/
def suffix (path : String) : List Char :=
  let name := Text.afterLast '/' path.toList
  let tail := name.reverse.takeWhile (· != '.')
  if tail.isEmpty || name.length ≤ tail.length + 1 then [] else '.' :: tail.reverse

def isJson (path : String) : Bool := Text.lower (suffix path) == ".json".toList

/-- The tree of a text in the wider format; an empty one counts as an empty map. -/
def settled (malformed : Failure) (text : String) : Outcome Tree :=
  match Yaml.treeOf text with
  | .ok tree => .ok (tree.orElse (.map []))
  | .error problem => .error (failureOf malformed problem)

def content (text : String) : String := String.ofList (Text.unifyBreaks text.toList)

def document (path text : String) : Outcome Tree :=
  let malformed : Failure := .contract .undecodable path
  if isJson path then (Tree.ofJson (content text)).mapError (jsonFailure malformed)
  else settled malformed (content text)

def settings (text : String) : Outcome Settings := do
  let tree ← settled (.setting .unreadable "settings") (content text)
  Settings.ofTree tree

end Input

end ApiContract
