import ApiContract.Yaml.Moment

/-! # Tags

A tag says what a node stands for. A plain scalar without one gets it from its
text; every other node without one is a text, a list or a map.
-/
namespace ApiContract.Yaml

inductive Tag
  | null
  | bool
  | int
  | float
  | moment
  | text
  /-- A key whose maps are merged into the map around it. -/
  | merge
  /-- A key for the plain value of a map. -/
  | value
  | list
  | map
  | unknown
  deriving DecidableEq, Repr

namespace Tag

def base : String := "tag:yaml.org,2002:"

def names : List (String × Tag) := [
  ("null", null), ("bool", bool), ("int", int), ("float", float), ("timestamp", moment),
  ("str", text), ("merge", merge), ("value", value), ("seq", list), ("map", map)]

def ofAddress (address : String) : Tag :=
  match names.find? fun e => address == base ++ e.1 with
  | some e => e.2
  | none => unknown

def truths : List (String × Bool) :=
  [("yes", true), ("no", false), ("true", true), ("false", false), ("on", true), ("off", false)]

/-- A word in lower case, in upper case, or with a capital letter. -/
def hasCaseForm (word text : String) : Bool :=
  text == word || text == word.toUpper || text == word.capitalize

def isBool (text : String) : Bool := truths.any fun e => hasCaseForm e.1 text

def isNull (text : String) : Bool := text == "" || text == "~" || hasCaseForm "null" text

def isMark (text : String) : Bool := text == "!" || text == "&" || text == "*"

/-- What a plain scalar without a tag stands for. -/
def ofPlain (plain : String) : Tag :=
  let chars := plain.toList
  if isBool plain then bool
  else if Number.isFloat chars then float
  else if Number.isInt chars then int
  else if plain == "<<" then merge
  else if isNull plain then null
  else if Moment.isPlain chars then moment
  else if plain == "=" then value
  else if isMark plain then unknown
  else text

def truth (word : String) : Result Scalar :=
  match truths.find? fun e => word.toLower == e.1 with
  | some e => .ok (.bool e.2)
  | none => .error .missing

def scalar (tag : Tag) (content : String) : Result Scalar :=
  match tag with
  | null => .ok .null
  | bool => truth content
  | int => (Number.int content.toList).map .int
  | float => (Number.float content.toList).map .float
  | moment =>
    match Moment.parse? content.toList with
    | some m => m.value
    | none => .error .illTyped
  | text => .ok (.text content)
  | _ => .error .malformed

end Tag

end ApiContract.Yaml
