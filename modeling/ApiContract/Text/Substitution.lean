/-! # Substitution from the left

A rule looks at the character before a place and at the text from there on. Where
it applies it says how many characters it takes and what stands for them; the
next place is behind what was taken. Everywhere else the text is kept.
-/
namespace ApiContract.Text

/-- How many characters are taken, at least one, and what stands for them. -/
abbrev Rule := Option Char → List Char → Option (Nat × List Char)

/-- Leaves out the next `skip` characters, which were taken already, and goes on. -/
def substituteFrom (rule : Rule) : Nat → Option Char → List Char → List Char
  | _, _, [] => []
  | skip + 1, _, c :: rest => substituteFrom rule skip (some c) rest
  | 0, before, c :: rest =>
    match rule before (c :: rest) with
    | some (width, new) => new ++ substituteFrom rule (width - 1) (some c) rest
    | none => c :: substituteFrom rule 0 (some c) rest

def substitute (rule : Rule) (text : List Char) : List Char := substituteFrom rule 0 none text

/-- The shortest content of at least one character on one line that can be closed,
given its last character and what follows. -/
def shortestContent? (closes : Char → List Char → Bool) : List Char → Option (List Char)
  | [] => none
  | c :: rest =>
    if c = '\n' then none
    else if closes c rest then some [c]
    else (shortestContent? closes rest).map (c :: ·)

end ApiContract.Text
