import ApiContract.Endpoint.Signature
import ApiContract.Proofs.Types.Plain

/-! # Grouping without signatures

Grouping and naming come before any signature, and what signing computes of an
operation reads none; neither fails over one.
-/
namespace ApiContract

namespace Signature

theorem plain_bodyName (body : RequestBody) : (bodyName body).Plain := by
  unfold bodyName
  split
  · exact .need rfl _
  · exact .ok _

theorem plain_bodyNameText (body : RequestBody) : (bodyNameText body).Plain :=
  .bind (plain_bodyName body) fun _ => .need rfl _

theorem plain_checkBindable (op : Operation) : (checkBindable op).Plain := by
  unfold checkBindable
  split
  · exact .error (Failure.isSigning_telling _ rfl)
  · split
    · exact .bind (.mapM fun body _ => plain_bodyNameText body) fun names => .error rfl
    · exact .ok _

theorem plain_identifierOf (name place : Scalar) (used : List String) :
    (identifierOf name place used).Plain :=
  .bind (.need rfl _) fun _ => .bind (.need rfl _) fun _ => .ok _

theorem plain_statusOrder (code : String) : (statusOrder code).Plain := by
  unfold statusOrder
  dsimp only
  split
  · exact .need rfl _
  · exact .bind (.need rfl _) fun hundred => .ok _

theorem plain_leastResponse (first : Response) (rest : List Response) :
    (leastResponse first rest).Plain := by
  refine .bind (plain_statusOrder first.code) fun start => ?_
  refine .bind (.foldlM (fun best r _ => ?_) _) fun best => .ok _
  exact .bind (plain_statusOrder r.code) fun order => .ok _

end Signature

namespace Grouping

variable (settings : Settings)

theorem plain_key (op : Operation) : (key settings op).Plain := by
  unfold key
  split
  · exact .map (Tree.plain_written _) _
  · split
    · exact .ok _
    · exact .ok _

theorem plain_resourceName (key : Tree) : (resourceName key).Plain := by
  unfold resourceName
  split
  · exact .map (.need rfl _) _
  · exact .ok _

theorem plain_methodName (op : Operation) : (methodName op).Plain := by
  unfold methodName
  split
  · exact .map (.need rfl _) _
  · exact .ok _

theorem plain_groupsOf (contract : Contract) : (groupsOf contract settings).Plain := by
  refine .foldlM (fun groups op _ => ?_) _
  refine .bind (plain_key settings op) fun k => ?_
  exact .bind (plain_resourceName k) fun name => .ok _

theorem plain_resourceOf (name : String) (group : Group) :
    (resourceOf settings name group).Plain := by
  refine .bind (.mapM fun op _ => ?_) fun endpoints => .ok _
  exact .bind (plain_methodName op) fun name => .ok _

theorem plain_discriminators (op first : Operation) (base : String) :
    (discriminators op first base).Plain :=
  .bind (.mapM fun _ _ => .map (.need rfl _) _) fun _ => .ok _

theorem plain_distinguish (resource : Resource) : (distinguish resource).Plain := by
  refine .bind (.foldlM (fun state e _ => ?_) _) fun final => .ok _
  unfold nameEndpoint
  split
  · exact .ok _
  · refine .bind (plain_discriminators _ _ _) fun candidates => ?_
    split
    · exact .ok _
    · exact .error rfl

end Grouping

end ApiContract
