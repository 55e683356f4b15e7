import ApiContract.Failure
import ApiContract.Text.Escaped

/-! # JSON text

A tree is written on one line in plain ASCII, with a blank after each comma and
colon. Keys that are no texts are written as texts. A date has no JSON form, and
neither has a list or map that holds itself or an integer of very many digits. The
first value without a form decides on the failure.
-/
namespace ApiContract

def jsonFloat : Decimal.Layout := ⟨-4, 15, 2, "Infinity", "NaN"⟩

def Scalar.json (s : Scalar) : Outcome String :=
  match s with
  | .null => .ok "null"
  | .bool b => .ok (if b then "true" else "false")
  | .int n => if hasNumeral n then .ok (toString n) else .error .tooLong
  | .float x => .ok (jsonFloat.write x)
  | .text s => .ok (Text.escaped s)
  | .date .. => .error .illTyped
  | .instant _ => .error .illTyped

def Scalar.jsonKey : Scalar → Outcome String
  | .text s => .ok (Text.escaped s)
  | s => s.json.map Text.escaped

namespace Tree

mutual

def jsonIn (around : List Nat) : Tree → Outcome String
  | scalar s => s.json
  | list items => do
    let parts ← jsonItems around items
    pure ("[" ++ ", ".intercalate parts ++ "]")
  | map entries => do
    let parts ← jsonEntries around entries
    pure ("\x7b" ++ ", ".intercalate parts ++ "\x7d")
  | loop label body =>
    if label ∈ around then .error .cyclic else body.jsonIn (label :: around)
  | back _ => .error .cyclic

def jsonItems (around : List Nat) : List Tree → Outcome (List String)
  | [] => .ok []
  | t :: rest => do
    let first ← t.jsonIn around
    let others ← jsonItems around rest
    pure (first :: others)

def jsonEntries (around : List Nat) : List (Scalar × Tree) → Outcome (List String)
  | [] => .ok []
  | e :: rest => do
    let key ← e.1.jsonKey
    let value ← e.2.jsonIn around
    let others ← jsonEntries around rest
    pure ((key ++ ": " ++ value) :: others)

end

def json (t : Tree) : Outcome String := t.jsonIn []

end Tree

end ApiContract
