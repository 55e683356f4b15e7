import ApiContract.Failure
import ApiContract.Text.Blank
import ApiContract.Text.Cut
import ApiContract.Text.Digit
import ApiContract.Text.Substitution
import ApiContract.Text.Word

/-! # Inline markup

Code spans are taken out first and leave numbered markers, so that nothing in them
is read as markup. Then the text is escaped, strong and plain emphasis become
tags, and the markers are replaced by their spans.
-/
namespace ApiContract.Doc

def escapeChar (c : Char) : List Char :=
  if c = '&' then "&amp;".toList
  else if c = '<' then "&lt;".toList
  else if c = '>' then "&gt;".toList
  else if c = '@' then "&#64;".toList
  else [c]

/-- The text with nothing in it that is markup or that ends a comment. -/
def escape (text : List Char) : List Char :=
  Text.replacePair '*' '/' "*&#47;".toList (text.flatMap escapeChar)

def tagged (tag : String) (content : List Char) : List Char :=
  '<' :: tag.toList ++ '>' :: content ++ '<' :: '/' :: tag.toList ++ ['>']

def isTick (c : Char) : Bool := c == '\x60'

/-- The content of the code span whose opening tick has just been read. -/
def spanContent? (rest : List Char) : Option (List Char) :=
  match rest.takeWhile (fun c => !isTick c), rest.dropWhile (fun c => !isTick c) with
  | [], _ => none
  | content, _ :: _ => some content
  | _, [] => none

def marker (index : Nat) : List Char := '\x00' :: Nat.toDigits 10 index ++ ['\x00']

structure Marked where
  text : List Char
  spans : List (List Char)

def Marked.keep (c : Char) (m : Marked) : Marked := ⟨c :: m.text, m.spans⟩

/-- Takes the code spans out; the next `skip` characters were taken already. -/
def takeSpans (index : Nat) : Nat → List Char → Marked
  | _, [] => ⟨[], []⟩
  | skip + 1, _ :: rest => takeSpans index skip rest
  | 0, c :: rest =>
    match if isTick c then spanContent? rest else none with
    | some content =>
      let later := takeSpans (index + 1) (content.length + 1) rest
      ⟨marker index ++ later.text, content :: later.spans⟩
    | none => (takeSpans index 0 rest).keep c

def strongWith (mark : Char) : List Char → Option (Nat × List Char)
  | a :: b :: rest =>
    if a = mark ∧ b = mark then
      (Text.shortestContent? (fun _ more => [mark, mark].isPrefixOf more) rest).map
        fun content => (content.length + 4, tagged "strong" content)
    else none
  | _ => none

def strongRule : Text.Rule := fun _ text => (strongWith '*' text).or (strongWith '_' text)

def closesEmphasis (mark last : Char) (more : List Char) : Bool :=
  !Text.isBlank last && (match more with
    | c :: next => c == mark && !(next.head?.any Text.isWordChar)
    | [] => false)

/-- A mark that stands at the edge of a word on either side of the content. -/
def emphasisWith (mark : Char) (bars : Char → Bool) (before : Option Char) :
    List Char → Option (Nat × List Char)
  | a :: rest =>
    if a = mark ∧ !before.any bars ∧ !(rest.head?.any Text.isBlank) then
      (Text.shortestContent? (closesEmphasis mark) rest).map
        fun content => (content.length + 2, tagged "em" content)
    else none
  | [] => none

def emphasisRule : Text.Rule := fun before text =>
  (emphasisWith '*' (fun c => Text.isWordChar c || c == '*') before text).or
    (emphasisWith '_' Text.isWordChar before text)

/-- The digits of the marker whose first end has just been read. -/
def markerDigits? (rest : List Char) : Option (List Char) :=
  match rest.takeWhile Text.isDecimal, rest.dropWhile Text.isDecimal with
  | [], _ => none
  | digits, c :: _ => if c = '\x00' then some digits else none
  | _, [] => none

def spanAt (spans : List (List Char)) (digits : List Char) : Outcome (List Char) := do
  let index ← need .notNumber (Text.numeral? digits)
  need .outOfRange spans[index]?

/-- Puts the spans back; the next `skip` characters were taken already. -/
def putSpans (spans : List (List Char)) : Nat → List Char → Outcome (List Char)
  | _, [] => .ok []
  | skip + 1, _ :: rest => putSpans spans skip rest
  | 0, c :: rest =>
    match if c = '\x00' then markerDigits? rest else none with
    | some digits => do
      let span ← spanAt spans digits
      let later ← putSpans spans (digits.length + 1) rest
      pure (span ++ later)
    | none => do
      let later ← putSpans spans 0 rest
      pure (c :: later)

def inlineChars (text : List Char) : Outcome (List Char) :=
  let marked := takeSpans 0 0 text
  let spans := marked.spans.map fun s => tagged "code" (escape s)
  let strong := Text.substitute strongRule (escape marked.text)
  putSpans spans 0 (Text.substitute emphasisRule strong)

def inlineText (text : String) : Outcome String := (inlineChars text.toList).map String.ofList

end ApiContract.Doc
