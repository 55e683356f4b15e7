import ApiContract.Proofs.Outcome
import ApiContract.Types.Mapping

/-! # Types without signatures

Following references, merging objects and naming types know nothing of signatures, and
so never fail over one.
-/
namespace ApiContract

namespace Contract

variable (c : Contract)

theorem plain_targetWithin (fuel : Nat) (seen : List String) (s : Schema) :
    (c.targetWithin fuel seen s).Plain := by
  induction fuel generalizing seen s with
  | zero => exact .error rfl
  | succ fuel ih =>
    unfold targetWithin
    split
    · split
      · exact .ok _
      · split
        · exact .error rfl
        · exact .bind (.need rfl _) fun next => ih _ next
    · exact .ok _

theorem plain_target (s : Schema) : (c.target s).Plain := plain_targetWithin c _ _ s

theorem plain_isBinary (s : Option Schema) : (c.isBinary s).Plain := by
  cases s with
  | none => exact .ok _
  | some s =>
    refine .bind (plain_target c s) fun t => ?_
    split
    · exact .ok _
    · exact .ok _

end Contract

namespace Merged

variable (c : Contract)

theorem plain_enter (seen : List String) (member : Schema) : (enter c seen member).Plain := by
  unfold enter
  split
  · split
    · exact .error rfl
    · exact .bind (Contract.plain_target c _) fun t => .ok _
  · exact .ok _

theorem plain_addMember {merge : List String → Schema → Outcome Merged}
    (hmerge : ∀ seen s, (merge seen s).Plain) (state : State) (member : Schema) :
    (addMember c merge state member).Plain := by
  refine .bind (plain_enter c _ member) fun entered => ?_
  dsimp only
  split
  · exact .bind (hmerge _ _) fun part => .ok _
  · exact .error rfl

theorem plain_ofSchemaWithin (fuel : Nat) (seen : List String) (s : Schema) :
    (ofSchemaWithin c fuel seen s).Plain := by
  induction fuel generalizing seen s with
  | zero => exact .error rfl
  | succ fuel ih =>
    unfold ofSchemaWithin
    split
    · exact .bind (.foldlM (fun state member _ => plain_addMember c ih state member) _)
        fun final => .ok _
    · exact .ok _

theorem plain_ofSchema (s : Schema) : (ofSchema c s).Plain := plain_ofSchemaWithin c _ _ s

end Merged

theorem plain_formatText (format : Tree) : (formatText format).Plain := by
  unfold formatText
  split
  · exact .ok _
  · exact .ok _
  · exact .error rfl

theorem Types.plain_roleName (role : Scalar) : (roleName role).Plain := by
  unfold roleName
  split
  · exact .map (.need rfl _) _
  · exact .ok _

end ApiContract
