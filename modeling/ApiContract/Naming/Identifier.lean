import ApiContract.Naming.Word
import ApiContract.Text.Digit

/-! # Names in generated source

Type names, identifiers and enum constants derived from the names of a contract.
A guard makes each of them legal: it supplies a name where none is left, sets an
underscore before a digit and another behind a reserved word. A name that is taken gets
the first number, from two on, that makes it free.
-/
namespace ApiContract.Naming

def reservedWords : List String := [
  "abstract", "assert", "boolean", "break", "byte", "case", "catch", "char", "class", "const",
  "continue", "default", "do", "double", "else", "enum", "extends", "final", "finally", "float",
  "for", "goto", "if", "implements", "import", "instanceof", "int", "interface", "long", "native",
  "new", "package", "private", "protected", "public", "return", "short", "static", "strictfp",
  "super", "switch", "synchronized", "this", "throw", "throws", "transient", "try", "void",
  "volatile", "while", "true", "false", "null", "var", "record", "yield"]

def isReserved (w : Word) : Bool := reservedWords.any fun r => r.toList == w

def guardDigit : Word → Word
  | [] => []
  | c :: rest => if Text.isDigitLike c then '_' :: c :: rest else c :: rest

def guardReserved (w : Word) : Word := if isReserved w then w ++ ['_'] else w

def legal (w : Word) : Word :=
  if w.isEmpty then "value".toList else guardReserved (guardDigit w)

def camel : List Word → Word
  | [] => []
  | first :: others => first ++ others.flatMap capitalize

/-- A capital followed by letters and digits: a name that needs no change. -/
def isPascal : Word → Bool
  | [] => false
  | c :: rest => c.isUpper && rest.all Char.isAlphanum

def isLowerCamel : Word → Bool
  | [] => false
  | c :: rest => c.isLower && rest.all Char.isAlphanum

def typeWord (name : Word) : Word :=
  if isPascal name then name else legal ((splitWords name).flatMap capitalize)

def identifierWord (name : Word) : Word := legal (camel (splitWords name))

def constantWord (name : Word) : Word :=
  let joined := Text.joinWith ['_'] ((splitWords name).map (·.map Char.toUpper))
  legal (if joined.isEmpty then "EMPTY".toList else joined)

def lowerFirst : Word → Word
  | [] => []
  | c :: rest => c.toLower :: rest

def explicitWord (name : Word) : Word :=
  if isLowerCamel name then legal name
  else match Text.runs Char.isAlphanum name with
    | [] => "operation".toList
    | first :: others => legal (camel (lowerFirst first :: others))

/-- A type name in Pascal case; a name already in Pascal case stays as it is. -/
def typeName (name : String) : String := String.ofList (typeWord name.toList)

def identifier (name : String) : String := String.ofList (identifierWord name.toList)

/-- An enum constant in capitals with underscores. -/
def constantName (shown : String) : String := String.ofList (constantWord shown.toList)

/-- The method name for an operation that names itself. -/
def explicitMethodName (name : String) : String := String.ofList (explicitWord name.toList)

/-- The interface name for a grouping key; the empty key stands for the root. -/
def resourceName (key : String) : String :=
  (if key.isEmpty then "Root" else typeName key) ++ "Resource"

def numbered (base joint : String) (n : Nat) : String := base ++ joint ++ toString n

/-- The name itself, or the name with the first number that makes it free: among one more
candidates than there are taken names, one is free. -/
def fresh (taken : List String) (base joint : String) : String :=
  if base ∈ taken then
    (((List.range (taken.length + 1)).map fun i => numbered base joint (i + 2)).find?
      fun candidate => candidate ∉ taken).getD base
  else base

end ApiContract.Naming
