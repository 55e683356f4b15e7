import ApiContract.Text.Cut

/-! # Words of a name

A name in any spelling (camel case, dashes, underscores, blanks) falls into
words. A capital starts a word after a small letter or a digit, and also after a
capital when a small letter follows. Everything but ASCII letters and digits
only separates.
-/
namespace ApiContract.Naming

abbrev Word := List Char

def startsWord (before c : Char) (next : Option Char) : Bool :=
  c.isUpper && (before.isLower || before.isDigit || (before.isUpper && next.any Char.isLower))

/-- The name with a blank before each capital that starts a word. -/
def spaced (before : Char) : List Char → List Char
  | [] => []
  | c :: rest =>
    if startsWord before c rest.head? then ' ' :: c :: spaced c rest else c :: spaced c rest

def splitWords (name : List Char) : List Word :=
  (Text.runs Char.isAlphanum (spaced ' ' name)).map (·.map Char.toLower)

def capitalize : Word → Word
  | [] => []
  | c :: rest => c.toUpper :: rest

theorem filter_spaced (p : Char → Bool) (hp : p ' ' = false) (before : Char) (name : List Char) :
    (spaced before name).filter p = name.filter p := by
  induction name generalizing before with
  | nil => rfl
  | cons c rest ih => simp only [spaced]; split <;> simp [List.filter_cons, hp, ih]

end ApiContract.Naming
