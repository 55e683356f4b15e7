import ApiContract.Proofs.Run.References
import ApiContract.Proofs.Source.Lines

/-! # The methods of a dialect

A dialect prints each resource as one artifact, and the lines of it declare one method for each
endpoint, in order, and nothing else. When the labels of the endpoints are different, each has one
method among all, and one line of all the artifacts declares it.
-/
namespace ApiContract.Generation

variable {contract : Contract} {settings : Settings}

/-- A text that holds an interface: its lines declare the methods, each once. -/
def Declared (text : String) (unit : Source.ResourceUnit) : Prop :=
  Source.HasLines text unit.lines ∧ Source.DeclaresMethods unit.methods unit.lines

end ApiContract.Generation
