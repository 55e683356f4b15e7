import ApiContract.Proofs.Outcome
import ApiContract.Proofs.Table
import ApiContract.Source.Artifact

/-! # Printing signed resources

Printing reads the signatures of the endpoints and nothing else of them. As long as each
endpoint has one, printing never fails over a signature.
-/
namespace ApiContract

theorem Scalar.plain_json (s : Scalar) : s.json.Plain := by
  cases s with
  | int n =>
    unfold json
    dsimp only
    split
    · exact .ok _
    · exact .error rfl
  | date => exact .error rfl
  | instant => exact .error rfl
  | _ => exact .ok _

theorem Scalar.plain_jsonKey (s : Scalar) : s.jsonKey.Plain := by
  unfold jsonKey
  split
  · exact .ok _
  · exact .map (plain_json _) _

namespace Tree

mutual

theorem plain_jsonIn (around : List Nat) : ∀ t : Tree, (t.jsonIn around).Plain
  | scalar s => s.plain_json
  | list items => .bind (plain_jsonItems around items) fun _ => .ok _
  | map entries => .bind (plain_jsonEntries around entries) fun _ => .ok _
  | loop label body => by
    unfold jsonIn
    split
    · exact .error rfl
    · exact plain_jsonIn _ body
  | back _ => .error rfl

theorem plain_jsonItems (around : List Nat) : ∀ items : List Tree, (jsonItems around items).Plain
  | [] => .ok _
  | t :: rest =>
    .bind (plain_jsonIn around t) fun _ => .bind (plain_jsonItems around rest) fun _ => .ok _

theorem plain_jsonEntries (around : List Nat) :
    ∀ entries : List (Scalar × Tree), (jsonEntries around entries).Plain
  | [] => .ok _
  | e :: rest =>
    .bind e.1.plain_jsonKey fun _ =>
      .bind (plain_jsonIn around e.2) fun _ => .bind (plain_jsonEntries around rest) fun _ => .ok _

end

theorem plain_json (t : Tree) : t.json.Plain := plain_jsonIn [] t

end Tree

namespace Doc

end Doc

namespace Source

variable (settings : Settings)

theorem plain_around (start need : String) {element : Outcome Piece} (h : element.Plain) :
    (around start need element).Plain :=
  .bind h fun _ => .ok _

mutual

theorem plain_typePiece (dialect : Option Dialect) :
    ∀ type : TypeRef, (typePiece dialect settings type).Plain
  | .mk .void _ _ _ => .ok _
  | .mk .primitive _ _ _ => .ok _
  | .mk .bean _ _ _ => .ok _
  | .mk .enum _ _ _ => .ok _
  | .mk .external _ _ _ => .ok _
  | .mk .list _ _ args => plain_around _ _ (plain_elementPiece dialect args)
  | .mk .map _ _ args => plain_around _ _ (plain_elementPiece dialect args)
  | .mk .binary _ _ _ => .ok _
  | .mk .rawResponse _ _ _ => by
    cases dialect with
    | none => exact .ok _
    | some d => exact .ok _
  | .mk .async _ _ args => by
    cases dialect with
    | none => exact .ok _
    | some d => exact plain_around _ _ (plain_elementPiece _ args)
  | .mk .any _ _ _ => .ok _

theorem plain_elementPiece (dialect : Option Dialect) :
    ∀ args : List TypeRef, (elementPiece dialect settings args).Plain
  | [] => .error rfl
  | t :: _ => plain_typePiece dialect t

end

variable {signatures : Table String Signature}

end Source

namespace Artifact

variable {settings : Settings} {signatures : Table String Signature}

end Artifact

end ApiContract
