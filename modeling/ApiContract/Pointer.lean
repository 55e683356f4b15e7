import ApiContract.Failure
import ApiContract.Text.Cut
import ApiContract.Text.Digit

/-! # Pointers into a document

A pointer is `#/` and a list of tokens joined by slashes, in which a tilde and a
slash of a token are written `~0` and `~1`. It is followed from the root: a token
is a key of a map or a decimal index into a list.
-/
namespace ApiContract.Pointer

def encode (token : List Char) : List Char :=
  Text.replaceChar '/' ['~', '1'] (Text.replaceChar '~' ['~', '0'] token)

def decode (token : List Char) : List Char :=
  Text.replacePair '~' '0' ['~'] (Text.replacePair '~' '1' ['/'] token)

def ofTokens (tokens : List String) : String :=
  String.ofList (['#', '/'] ++ Text.joinWith ['/'] (tokens.map fun t => encode t.toList))

/-- The last token, which names the target. -/
def targetName (pointer : String) : String :=
  String.ofList (decode (Text.afterLast '/' pointer.toList))

/-- The tokens of a pointer; none for a text that does not start with `#/`. -/
def tokens? (pointer : String) : Option (List String) :=
  match pointer.toList with
  | '#' :: '/' :: rest => some ((Text.splitAt '/' rest).map fun t => String.ofList (decode t))
  | _ => none

def index? (token : String) : Outcome Nat :=
  need .notNumber (Text.numeral? token.toList)

def isIndex (token : String) : Bool :=
  let chars := token.toList
  !chars.isEmpty && chars.all Text.isDigitLike

def child (token : String) (node : Tree) : Outcome Tree :=
  match node.items? with
  | some items =>
    if isIndex token then do
      let i ← index? token
      need .missing items[i]?
    else .error .missing
  | none => need .missing (node.fields?.bind fun fields => Fields.field? fields token)

def follow : List String → Tree → Outcome Tree
  | [], node => .ok node
  | token :: rest, node => do
    let next ← child token node
    follow rest next

def resolve (document : Tree) (pointer : String) : Outcome Tree := do
  let tokens ← need .missing (tokens? pointer)
  follow tokens document

end ApiContract.Pointer
