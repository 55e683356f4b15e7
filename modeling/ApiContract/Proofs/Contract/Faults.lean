import ApiContract.Contract.Reader
import ApiContract.Proofs.Outcome

/-! # Where repetitions are found

Reading schemas and following references report no path and no parameter that is declared
twice. Reading one operation reports no duplicate path: only the walk over the path items
compares paths with those before. Parameters are compared when those of the operation itself
are merged in, and nowhere else.
-/
namespace ApiContract

/-- The method, the path and the earlier path that a failure finds to be duplicates. -/
def Failure.duplicate? : Failure → Option (String × String × String)
  | contract (.duplicatePath method path earlier) _ => some (method, path, earlier)
  | _ => none

def Failure.isDuplicatePath (failure : Failure) : Bool := failure.duplicate?.isSome

theorem Failure.duplicate?_eq_some {failure : Failure} {method path earlier : String}
    (h : failure.duplicate? = some (method, path, earlier)) :
    ∃ location, failure = .contract (.duplicatePath method path earlier) location := by
  cases failure with
  | contract fault location =>
    cases fault with
    | duplicatePath =>
      cases h
      exact ⟨location, rfl⟩
    | _ => cases h
  | _ => cases h

/-- Whether a failure finds two paths or two parameters of an operation to be the same. -/
def Failure.isRepetition : Failure → Bool
  | contract (.duplicatePath ..) _ => true
  | contract (.duplicateParameter ..) _ => true
  | _ => false

theorem Failure.isRepetition_of_isDuplicatePath {failure : Failure}
    (h : failure.isDuplicatePath = true) : failure.isRepetition = true := by
  obtain ⟨⟨method, path, earlier⟩, hduplicate⟩ := Option.isSome_iff_exists.mp h
  obtain ⟨location, rfl⟩ := Failure.duplicate?_eq_some hduplicate
  rfl

theorem Failure.telling_of {P : Failure → Prop} (values : List Tree) {failure : Failure}
    (h : P failure) (htooLong : P .tooLong) : P (telling values failure) := by
  unfold telling
  split
  · exact h
  · exact htooLong

namespace Outcome

variable {α : Type} {o : Outcome α}

abbrev Unduplicated (o : Outcome α) : Prop := o.Avoids Failure.isDuplicatePath

abbrev Unrepeated (o : Outcome α) : Prop := o.Avoids Failure.isRepetition

theorem Unrepeated.unduplicated (h : o.Unrepeated) : o.Unduplicated := by
  intro e he
  refine Bool.eq_false_iff.mpr fun hduplicate => ?_
  exact Bool.eq_false_iff.mp (h e he) (Failure.isRepetition_of_isDuplicatePath hduplicate)

theorem Unrepeated.ne_error (h : o.Unrepeated) {e : Failure} (he : e.isRepetition = true) :
    o ≠ .error e :=
  fun hfailed => Bool.eq_false_iff.mp (h e hfailed) he

end Outcome

theorem Scalar.unrepeated_written (s : Scalar) : s.written.Unrepeated := by
  unfold Scalar.written
  split
  · exact .ok _
  · exact .error rfl

theorem Tree.unrepeated_written (t : Tree) : t.written.Unrepeated := by
  unfold Tree.written
  split
  · exact .ok _
  · exact .error rfl

namespace SchemaScope

variable {read : SchemaReading} (hread : ∀ node location, (read node location).Unrepeated)
  {fields : Fields} {notes : SchemaNotes} {location : String}

theorem unrepeated_readRequired (fields : Fields) : (readRequired fields).Unrepeated := by
  unfold readRequired
  dsimp only
  split
  · refine .bind (.need rfl _) fun members => ?_
    exact .bind (.mapM fun m _ => .need rfl _) fun keys => .pure _
  · exact .ok _

theorem unrepeated_readPlain (fields : Fields) (notes : SchemaNotes) (type : Tree) :
    (readPlain fields notes type).Unrepeated := by
  unfold readPlain
  split
  · split
    · exact .ok _
    · exact .ok _
  · exact .ok _
  · exact .map (Scalar.unrepeated_written _) _
  · exact .error rfl

include hread

theorem unrepeated_readProperties (fields : Fields) (location : String) :
    (readProperties read fields location).Unrepeated := by
  unfold readProperties
  dsimp only
  split
  · refine .bind (.need rfl _) fun entries => .mapM fun e _ => ?_
    refine .bind (Scalar.unrepeated_written _) fun name => ?_
    exact .bind (hread _ _) fun property => .pure _
  · exact .ok _

theorem unrepeated_readValue (additional : Tree) (location : String) :
    (readValue read additional location).Unrepeated := by
  unfold readValue
  split
  · exact hread _ _
  · exact .ok _

theorem unrepeated_readObject (fields : Fields) (notes : SchemaNotes) (members : List Schema) :
    (readObject read fields notes members).Unrepeated := by
  have hobject : ∀ properties, Outcome.Unrepeated
      (do let required ← readRequired fields
          pure (Schema.object notes properties required members)) :=
    fun properties => .bind (unrepeated_readRequired fields) fun required => .pure _
  refine .bind (unrepeated_readProperties hread _ _) fun properties => ?_
  split
  · split
    · exact .bind (unrepeated_readValue hread _ _) fun value => .pure _
    · exact hobject _
  · exact hobject _

theorem unrepeated_readMembers (value : Tree) (location : String) :
    (readMembers read value location).Unrepeated :=
  .bind (.need rfl _) fun _ => .mapM fun _ _ => hread _ _

theorem unrepeated_readItems (fields : Fields) (location : String) :
    (readItems read fields location).Unrepeated := by
  unfold readItems
  split
  · exact .ok _
  · split
    · exact .ok _
    · exact hread _ _

theorem unrepeated_readTyped (fields : Fields) (notes : SchemaNotes) (type : Tree) :
    (readTyped read fields notes type).Unrepeated := by
  unfold readTyped
  split
  · exact .bind (unrepeated_readMembers hread _ _) fun members =>
      unrepeated_readObject hread _ _ _
  · split
    · exact .bind (.need rfl _) fun values => .pure _
    · split
      · exact .bind (unrepeated_readItems hread _ _) fun items => .pure _
      · split
        · exact unrepeated_readObject hread _ _ _
        · split
          · exact .ok _
          · exact unrepeated_readPlain _ _ _

theorem unrepeated_readNode (scope : SchemaScope) (node : Tree) (location : String) :
    (scope.readNode read node location).Unrepeated := by
  unfold readNode
  split
  · split
    · split
      · exact .ok _
      · exact .error (Failure.telling_of (P := fun e => e.isRepetition = false) _ rfl rfl)
    · unfold readBody
      split
      · exact .ok _
      · split
        · exact unrepeated_readTyped hread _ _ _
        · exact .ok _
  · exact .error rfl

omit hread

theorem unrepeated_read (scope : SchemaScope) (node : Tree) (location : String) :
    (scope.read node location).Unrepeated := by
  have hwithin : ∀ depth node location, (scope.readWithin depth node location).Unrepeated := by
    intro depth
    induction depth with
    | zero => exact fun _ _ => .error rfl
    | succ depth ih => exact unrepeated_readNode ih scope
  exact hwithin _ _ _

end SchemaScope

theorem Pointer.unrepeated_resolve (document : Tree) (pointer : String) :
    (resolve document pointer).Unrepeated := by
  have hchild : ∀ token node, (child token node).Unrepeated := by
    intro token node
    unfold child
    split
    · split
      · exact .bind (.need rfl _) fun i => .need rfl _
      · exact .error rfl
    · exact .need rfl _
  have hfollow : ∀ tokens node, (follow tokens node).Unrepeated := by
    intro tokens
    induction tokens with
    | nil => exact fun node => .ok node
    | cons token rest ih => exact fun node => .bind (hchild token node) ih
  exact .bind (.need rfl _) fun tokens => hfollow tokens document

namespace ContractReader

theorem unrepeated_deref (document node : Tree) (location : String) :
    (deref document node location).Unrepeated := by
  have hwithin : ∀ fuel seen node, (followWithin document location fuel seen node).Unrepeated := by
    intro fuel
    induction fuel with
    | zero => exact fun _ _ => .error rfl
    | succ fuel ih =>
      intro seen node
      unfold followWithin
      split
      · exact .ok _
      · split
        · exact .error rfl
        · split
          · exact .error rfl
          · split
            · exact ih _ _
            · exact .error rfl
            · next failure _ hresolve =>
              exact .error (Pointer.unrepeated_resolve document _ failure hresolve)
  unfold deref
  split
  · exact .ok _
  · exact hwithin _ _ _

variable (scope : Scope)

theorem unrepeated_optionalMembers (value : Tree) : (optionalMembers value).Unrepeated := by
  unfold optionalMembers
  split
  · exact .need rfl _
  · exact .ok _

theorem unrepeated_keyOf (place name : Tree) : (keyOf place name).Unrepeated :=
  .bind (.need rfl _) fun _ => .bind (.need rfl _) fun _ => .pure _

theorem unrepeated_addShared (location : String) (merged : Declarations) (entry : Tree × Nat) :
    (addShared scope location merged entry).Unrepeated := by
  refine .bind (unrepeated_deref _ _ _) fun node => ?_
  refine .bind (.need rfl _) fun fields => ?_
  exact .bind (unrepeated_keyOf _ _) fun key => .pure _

theorem unduplicated_addOwn (location label : String) (state : OwnState) (entry : Tree × Nat) :
    (addOwn scope location label state entry).Unduplicated := by
  refine .bind (unrepeated_deref _ _ _).unduplicated fun node => ?_
  refine .bind (.need rfl _) fun fields => ?_
  extract_lets add
  have hadd : ∀ named, (add named).Unduplicated := by
    refine fun named => .bind (unrepeated_keyOf _ _).unduplicated fun key => ?_
    split
    · exact .error (Failure.telling_of (P := fun e => e.isDuplicatePath = false) _ rfl rfl)
    · exact .pure _
  split
  · exact .bind (.need rfl _) hadd
  · exact .bind (.error rfl) hadd

theorem unduplicated_mergeParameters (itemLocation location label : String) (shared own : Tree) :
    (mergeParameters scope itemLocation location label shared own).Unduplicated := by
  refine .bind (unrepeated_optionalMembers _).unduplicated fun sharedNodes => ?_
  refine .bind (.foldlM (fun _ _ _ => (unrepeated_addShared scope _ _ _).unduplicated) _)
    fun merged => ?_
  refine .bind (unrepeated_optionalMembers _).unduplicated fun ownNodes => ?_
  exact .bind (.foldlM (fun _ _ _ => unduplicated_addOwn scope _ _ _ _) _) fun state => .pure _

theorem unrepeated_readParameterSchema (fields : Fields) (location : String) :
    (readParameterSchema scope fields location).Unrepeated := by
  have hmedia : ∀ entries, (readFirstMedia scope location entries).Unrepeated := by
    intro entries
    induction entries with
    | nil => exact .ok _
    | cons e rest ih =>
      unfold readFirstMedia
      split
      · refine .bind (Scalar.unrepeated_written _) fun type => ?_
        exact .bind (scope.schemas.unrepeated_read _ _) fun schema => .pure _
      · exact ih
  unfold readParameterSchema
  split
  · exact .map (scope.schemas.unrepeated_read _ _) _
  · split
    · exact .bind (.need rfl _) fun entries => hmedia entries
    · dsimp only
      split
      · exact .ok _
      · exact .map (scope.schemas.unrepeated_read _ _) _

theorem unrepeated_mediaTypes (operation : Fields) (key : String) :
    (mediaTypes scope operation key).Unrepeated :=
  .bind (.need rfl _) fun _ => .mapM fun _ _ => .need rfl _

theorem unrepeated_readContent (value : Tree) (location : String) :
    (readContent scope value location).Unrepeated := by
  refine .bind (.need rfl _) fun entries => .mapM fun e _ => ?_
  split
  · refine .bind (Scalar.unrepeated_written _) fun type => ?_
    exact .bind (scope.schemas.unrepeated_read _ _) fun schema => .pure _
  · exact .pure _

theorem unrepeated_bindDeclared (node : Fields) (op : Operation)
    (entry : (Scalar × Scalar) × Declared) :
    (bindDeclared scope node op entry).Unrepeated := by
  unfold bindDeclared
  dsimp only
  split
  · refine .bind (scope.schemas.unrepeated_read _ _) fun schema => ?_
    exact .bind (unrepeated_mediaTypes scope _ _) fun types => .pure _
  · exact .bind (unrepeated_readParameterSchema scope _ _) fun schema => .pure _

theorem unrepeated_addRequestBody (node : Fields) (location : String) (op : Operation) :
    (addRequestBody scope node location op).Unrepeated := by
  unfold addRequestBody
  split
  · exact .ok _
  · refine .bind ?_ fun body => .pure _
    refine .bind (unrepeated_deref _ _ _) fun node => .bind (.need rfl _) fun fields => ?_
    exact .bind (unrepeated_readContent scope _ _) fun content => .pure _

theorem unrepeated_readResponse (operation : Fields) (location : String)
    (entry : Scalar × Tree) : (readResponse scope operation location entry).Unrepeated := by
  refine .bind (Scalar.unrepeated_written _) fun code => ?_
  refine .bind (unrepeated_deref _ _ _) fun node => .bind (.need rfl _) fun fields => ?_
  refine .bind ?_ fun content => .pure _
  unfold readResponseContent
  split
  · split
    · refine .bind (scope.schemas.unrepeated_read _ _) fun schema => ?_
      exact .bind (unrepeated_mediaTypes scope _ _) fun types => .pure _
    · exact .ok _
  · exact unrepeated_readContent scope _ _

theorem unrepeated_checkPathParameters (op : Operation) (location : String) :
    (checkPathParameters op location).Unrepeated := by
  unfold checkPathParameters
  dsimp only
  split
  · exact .error rfl
  · split
    · exact .error (Failure.telling_of (P := fun e => e.isRepetition = false) _ rfl rfl)
    · exact .ok _

theorem unrepeated_readExtensions (node : Fields) : (readExtensions node).Unrepeated :=
  .bind (.mapM fun _ _ => .bind (.need rfl _) fun _ => .pure _) fun _ => .pure _

theorem unrepeated_addResponses (node : Fields) (location : String) (op : Operation) :
    (addResponses scope node location op).Unrepeated := by
  refine .bind (.need rfl _) fun entries => ?_
  exact .bind (.mapM fun _ _ => unrepeated_readResponse scope _ _ _) fun responses => .pure _

/-- What is left to read of an operation once its parameters are merged. -/
def readMerged (node : Fields) (location : String) (op : Operation) (merged : Declarations) :
    Outcome Operation := do
  let withParameters ← merged.foldlM (bindDeclared scope node) op
  let withBody ← addRequestBody scope node location withParameters
  let complete ← addResponses scope node location withBody
  checkPathParameters complete location
  pure complete

theorem unrepeated_readMerged (node : Fields) (location : String) (op : Operation)
    (merged : Declarations) : (readMerged scope node location op merged).Unrepeated := by
  refine .bind (.foldlM (fun _ _ _ => unrepeated_bindDeclared scope _ _ _) _) fun declared => ?_
  refine .bind (unrepeated_addRequestBody scope _ _ _) fun withBody => ?_
  refine .bind (unrepeated_addResponses scope _ _ _) fun complete => ?_
  exact .bind (unrepeated_checkPathParameters _ _) fun _ => .pure _

theorem unduplicated_readOperation (path method : String) (value shared : Tree) :
    (readOperation scope path method value shared).Unduplicated := by
  refine .bind (.need rfl _) fun node => ?_
  refine .bind (unrepeated_optionalMembers _).unduplicated fun tags => ?_
  refine .bind (unrepeated_readExtensions _).unduplicated fun extensions => ?_
  refine .bind (unduplicated_mergeParameters scope _ _ _ _ _) fun merged => ?_
  exact (unrepeated_readMerged scope _ _ _ merged).unduplicated

end ContractReader

end ApiContract
