import ApiContract.Failure

/-! # Values that are written into texts

A value becomes part of a place, of a name or of a literal by its display form. An
integer too long to be written makes that fail.
-/
namespace ApiContract

def Scalar.written (s : Scalar) : Outcome String :=
  if s.isWritable then .ok s.display else .error .tooLong

def Tree.written (t : Tree) : Outcome String :=
  if t.isWritable then .ok t.display else .error .tooLong

@[simp] theorem Scalar.written_text (s : String) : (Scalar.text s).written = .ok s := rfl

end ApiContract
