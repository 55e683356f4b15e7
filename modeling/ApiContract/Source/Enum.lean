import ApiContract.Source.Bean
import ApiContract.Tree.Json
import ApiContract.Tree.Written

/-! # Enums

An enumeration becomes an enum with one constant for each value that is not null,
in declaration order. The value type is the narrowest that holds all values, and a
value that is no text is written as its JSON text where texts are wanted.
-/
namespace ApiContract.Source

inductive ValueType
  | boolean
  | integer
  | long
  | double
  | text
  deriving DecidableEq, Repr

def ValueType.name : ValueType → String
  | boolean => "Boolean"
  | integer => "Integer"
  | long => "Long"
  | double => "Double"
  | text => "String"

structure ConstantUnit where
  name : String
  literal : String
  deriving DecidableEq, Repr

structure EnumUnit where
  package : String
  imports : List String
  name : String
  comment : List String
  valueType : ValueType
  constants : List ConstantUnit

def isBool : Tree → Bool
  | .scalar (.bool _) => true
  | _ => false

def isInteger : Tree → Bool
  | .scalar (.int _) => true
  | _ => false

def isNumber : Tree → Bool
  | .scalar (.int _) => true
  | .scalar (.float _) => true
  | _ => false

/-- An integer of more than 31 bits. -/
def isWide : Tree → Bool
  | .scalar (.int n) => n.natAbs ≥ Nat.pow 2 31
  | _ => false

def valueTypeOf (values : List Tree) : ValueType :=
  if values.isEmpty then .text
  else if values.all isBool then .boolean
  else if values.all isInteger then (if values.any isWide then .long else .integer)
  else if values.all isNumber then .double
  else .text

/-- A text as it is, any other value as JSON. -/
def valueText (value : Tree) : Outcome String :=
  match value with
  | .scalar (.text s) => .ok s
  | v => v.json

def doubleLiteral (value : Tree) : Outcome String :=
  match value with
  | .scalar (.float x) => .ok (shownFloat.write x)
  | .scalar (.int n) => (need .tooLarge (Binary64.ofInt? n)).map shownFloat.write
  | _ => .error .illTyped

def literal (type : ValueType) (value : Tree) : Outcome String :=
  match type with
  | .text => (valueText value).map Text.escaped
  | .long => value.written.map (· ++ "L")
  | .double => doubleLiteral value
  | _ => value.json

def addConstant (type : ValueType) (constants : List ConstantUnit) (value : Tree) :
    Outcome (List ConstantUnit) := do
  let text ← valueText value
  let name := Naming.fresh (constants.map ConstantUnit.name) (Naming.constantName text) "_"
  let written ← literal type value
  pure (constants ++ [{ name, literal := written }])

def enumUnit (settings : Settings) (enum : EnumType) : Outcome EnumUnit := do
  let values := enum.values.filter fun v => !v.isNull
  let valueType := valueTypeOf values
  let constants ← values.foldlM (addConstant valueType) []
  let comment ← Doc.renderDescription enum.description
  pure { package := settings.beanPackage, imports := [jackson "JsonCreator", jackson "JsonValue"],
         name := enum.name, comment, valueType, constants }

end ApiContract.Source
