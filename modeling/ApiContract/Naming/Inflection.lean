import ApiContract.Naming.Word

/-! # Singular and plural

Collections are named in the plural and their members in the singular. A few
words go by a table, the others by their ending.
-/
namespace ApiContract.Naming

def irregularNouns : List (String × String) := [
  ("search", "searches"), ("status", "statuses"), ("index", "indexes"), ("child", "children"),
  ("person", "people"), ("data", "data"), ("meta", "meta"), ("metadata", "metadata")]

def irregularPlural? (w : Word) : Option Word :=
  (irregularNouns.find? fun n => n.1.toList == w).map (·.2.toList)

def irregularSingular? (w : Word) : Option Word :=
  (irregularNouns.find? fun n => n.2.toList == w).map (·.1.toList)

def endsWith (w : Word) (ending : String) : Bool := ending.toList.isSuffixOf w

def endsWithAny (w : Word) (endings : List String) : Bool := endings.any (endsWith w)

def dropEnd (n : Nat) (w : Word) : Word := w.take (w.length - n)

def isVowel (c : Char) : Bool := ['a', 'e', 'i', 'o', 'u'].contains c

def vowelBeforeLast (w : Word) : Bool :=
  match w.reverse with
  | _ :: c :: _ => isVowel c
  | _ => false

def singularize (w : Word) : Word :=
  match irregularSingular? w with
  | some s => s
  | none =>
    if (irregularPlural? w).isSome then w
    else if endsWith w "ies" then dropEnd 3 w ++ ['y']
    else if endsWithAny w ["sses", "xes", "ches", "shes"] then dropEnd 2 w
    else if endsWith w "s" && !endsWithAny w ["ss", "us", "is"] then dropEnd 1 w
    else w

def pluralize (w : Word) : Word :=
  match irregularPlural? w with
  | some p => p
  | none =>
    if (irregularSingular? w).isSome || singularize w != w then w
    else if endsWith w "y" && !vowelBeforeLast w then dropEnd 1 w ++ ['i', 'e', 's']
    else if endsWithAny w ["s", "x", "ch", "sh"] then w ++ ['e', 's']
    else w ++ ['s']

end ApiContract.Naming
