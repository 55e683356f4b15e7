import ApiContract.Text.Blank

/-! # Wrapping

A text is wrapped at its blanks into lines of a given width. Tabs reach to the next
multiple of eight columns and other breaks count as a blank. A word longer than a
line stands alone, and the blanks at a line break are dropped.
-/
namespace ApiContract.Text

def tabWidth : Nat := 8

def expandTabs : Nat → List Char → List Char
  | _, [] => []
  | column, c :: rest =>
    if c = '\t' then
      let width := tabWidth - column % tabWidth
      List.replicate width ' ' ++ expandTabs (column + width) rest
    else if c = '\n' ∨ c = '\r' then c :: expandTabs 0 rest
    else c :: expandTabs (column + 1) rest

def flattenBreak (c : Char) : Char :=
  if c = '\n' ∨ c = '\r' ∨ c = '\x0b' ∨ c = '\x0c' then ' ' else c

def chunks : List Char → List (List Char)
  | [] => []
  | c :: rest =>
    match chunks rest with
    | (d :: ds) :: more =>
      if (c == ' ') == (d == ' ') then (c :: d :: ds) :: more else [c] :: (d :: ds) :: more
    | other => [c] :: other

/-- As many chunks as fit on a line that has `used` columns, and the others. -/
def fill (width : Nat) : Nat → List (List Char) → List (List Char) × List (List Char)
  | _, [] => ([], [])
  | used, chunk :: rest =>
    if used + chunk.length ≤ width then
      let (line, later) := fill width (used + chunk.length) rest
      (chunk :: line, later)
    else ([], chunk :: rest)

def dropBlankHead : List (List Char) → List (List Char)
  | chunk :: rest => if isBlankText chunk then rest else chunk :: rest
  | [] => []

/-- The chunks of the next line, a long one alone, and those behind it. -/
def nextLine (width : Nat) (pieces : List (List Char)) : List (List Char) × List (List Char) :=
  match fill width 0 pieces with
  | ([], long :: rest) => ([long], rest)
  | found => found

def wrapChunks (width : Nat) : Nat → Bool → List (List Char) → List (List Char)
  | 0, _, _ => []
  | fuel + 1, started, pieces =>
    if pieces.isEmpty then [] else
      let (line, rest) := nextLine width (if started then dropBlankHead pieces else pieces)
      let kept := (dropBlankHead line.reverse).reverse
      if kept.isEmpty then wrapChunks width fuel started rest
      else kept.flatten :: wrapChunks width fuel true rest

/-- The lines of a text; the empty text has one empty line. -/
def wrap (width : Nat) (text : List Char) : List (List Char) :=
  let pieces := chunks ((expandTabs 0 text).map flattenBreak)
  match wrapChunks width pieces.length false pieces with
  | [] => [[]]
  | lines => lines

end ApiContract.Text
