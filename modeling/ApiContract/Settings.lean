import ApiContract.Dialect
import ApiContract.Text.Cut
import ApiContract.Text.Identifier

/-! # Settings

The few values that influence what is generated. They are read from a mapping,
in which an unknown key is an error, and are checked in a fixed order: dialects,
response rule, workers, grouping, packages.
-/
namespace ApiContract

/-- Which success response gives a method its return type. -/
inductive ResponseRule
  | lowest
  | first
  deriving DecidableEq, Repr

def ResponseRule.name : ResponseRule → String
  | lowest => "lowest"
  | first => "first"

def ResponseRule.all : List ResponseRule := [lowest, first]

structure Settings where
  javaPackage : String := "org.example.api"
  beansPackage : Option String := none
  dialects : List Dialect := [Dialect.jaxrs]
  groupByTags : Bool := false
  responseRule : ResponseRule := .lowest
  workers : Nat := 1
  deriving DecidableEq, Repr

namespace Settings

def beanPackage (s : Settings) : String := s.beansPackage.getD (s.javaPackage ++ ".beans")

def keys : List String :=
  ["java_package", "beans_package", "dialects", "group_by_tags", "primary_response", "workers"]

def isPackage (package : String) : Bool :=
  (Text.splitAt '.' package.toList).all Text.isIdentifier

def readPackage (key : String) (value : Tree) : Outcome String :=
  need (.telling [value] (.setting (.invalidPackage value) key)) (value.text?.filter isPackage)

def readBeansPackage (value : Tree) : Outcome (Option String) :=
  if value.isNull then .ok none else (readPackage "beans_package" value).map some

def readDialects (names : List Tree) : Outcome (List Dialect) :=
  if names.isEmpty then .error (.setting .noDialect "dialects")
  else names.mapM Dialect.named

def readRule (value : Tree) : Outcome ResponseRule :=
  need (.setting (.primaryResponse (ResponseRule.all.map ResponseRule.name)) "primary_response")
    (ResponseRule.all.find? fun r => value.text? == some r.name)

def readWorkers (value : Tree) : Outcome Nat :=
  match value with
  | .scalar (.int n) =>
    if n ≥ 1 then .ok n.toNat else .error (.setting .workers "workers")
  | _ => .error (.setting .workers "workers")

def readGroupByTags (value : Tree) : Outcome Bool :=
  match value with
  | .scalar (.bool b) => .ok b
  | _ => .error (.setting .groupByTags "group_by_tags")

/-- One dialect name, or the members of a list of names. -/
def dialectNames (value : Tree) : Outcome (List Tree) :=
  match value with
  | .scalar (.text _) => .ok [value]
  | _ => need .illTyped value.members?

/-- The keys that are no settings, sorted; a key that is no text cannot be told. -/
def unknownKeys (fields : Fields) : Outcome (List String) := do
  let unknown := (Table.keys fields).filter fun k => !(keys.any fun known => k == .text known)
  let names ← unknown.mapM fun k => need .illTyped k.text?
  pure (names.mergeSort fun a b => a ≤ b)

/-- Settings from a mapping; a key that is absent has its default. -/
def ofTree (tree : Tree) : Outcome Settings := do
  let fields ← need (.setting .notMapping "settings") tree.fields?
  let unknown ← unknownKeys fields
  if !unknown.isEmpty then .error (.setting (.unknownKeys unknown) "settings")
  let names ← match Fields.field? fields "dialects" with
    | some value => dialectNames value
    | none => pure [.text Dialect.jaxrs.name]
  let dialects ← readDialects names
  let rule ← readRule ((Fields.field? fields "primary_response").getD (.text "lowest"))
  let workers ← readWorkers ((Fields.field? fields "workers").getD (.int 1))
  let groupByTags ← readGroupByTags ((Fields.field? fields "group_by_tags").getD (.bool false))
  let javaPackage ← readPackage "java_package"
    ((Fields.field? fields "java_package").getD (.text "org.example.api"))
  let beansPackage ← readBeansPackage ((Fields.field? fields "beans_package").getD .null)
  pure { javaPackage, beansPackage, dialects, groupByTags, responseRule := rule, workers }

def dialectOf (name : Option String) : Outcome Dialect :=
  (need .illTyped name).bind fun n => Dialect.named (.text n)

/-- The settings with other dialects and another package; none of either is kept. -/
def override (s : Settings) (dialects : List (Option String)) (package : Option String) :
    Outcome Settings := do
  let dialects ← if dialects.isEmpty then pure s.dialects else dialects.mapM dialectOf
  let javaPackage ← match package with
    | some p => readPackage "java_package" (.text p)
    | none => pure s.javaPackage
  pure { s with dialects, javaPackage }

end Settings

end ApiContract
