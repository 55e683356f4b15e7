import ApiContract.Text.Blank
import ApiContract.Text.Cut

/-! # Blocks of a description

The lines of a description form blocks: fenced or indented code, lists, and
paragraphs. Blank lines separate blocks and belong to none, except within code.
-/
namespace ApiContract.Doc

abbrev Line := List Char

inductive Block
  | paragraph (text : Line)
  | list (items : List Line)
  | code (lines : List Line)
  deriving DecidableEq, Repr

def isBlankLine (line : Line) : Bool := Text.isBlankText line

/-- The mark of a fence: three ticks or three tildes after blanks. -/
def fence? (line : Line) : Option (List Char) :=
  [List.replicate 3 '\x60', List.replicate 3 '~'].find? fun mark =>
    mark.isPrefixOf (line.dropWhile Text.isBlank)

def closesFence (mark : List Char) (line : Line) : Bool := mark.isPrefixOf (Text.strip line)

def fourBlanks : List Char := List.replicate 4 ' '

def isIndented (line : Line) : Bool :=
  fourBlanks.isPrefixOf line || ['\t'].isPrefixOf line

def unindent (line : Line) : Line :=
  if fourBlanks.isPrefixOf line then line.drop 4 else line.dropWhile (· == '\t')

def isBulletMark (c : Char) : Bool := c == '*' || c == '+' || c == '-'

def bullet? (line : Line) : Option Line :=
  match line.dropWhile Text.isBlank with
  | mark :: gap :: rest =>
    if isBulletMark mark && Text.isBlank gap then some (Text.strip rest) else none
  | _ => none

def isBullet (line : Line) : Bool := (bullet? line).isSome

/-- Lines of a list as items; a line without a bullet continues the item before it. -/
def addItem (items : List Line) (line : Line) : List Line :=
  match bullet? line with
  | some text => items ++ [text]
  | none =>
    match items.getLast? with
    | some last => items.dropLast ++ [last ++ ' ' :: Text.strip line]
    | none => items

def dropBlankLines (lines : List Line) : List Line :=
  (lines.reverse.dropWhile isBlankLine).reverse

def continuesCode (line : Line) : Bool := isIndented line || isBlankLine line

def continuesParagraph (line : Line) : Bool :=
  !isBlankLine line && !isBullet line && (fence? line).isNone

theorem length_dropWhile_le {α : Type} (p : α → Bool) (l : List α) :
    (l.dropWhile p).length ≤ l.length :=
  (List.dropWhile_suffix p).length_le

def blocks : List Line → List Block
  | [] => []
  | line :: rest =>
    if isBlankLine line then blocks rest
    else match fence? line with
      | some mark =>
        .code (rest.takeWhile fun l => !closesFence mark l) ::
          blocks ((rest.dropWhile fun l => !closesFence mark l).drop 1)
      | none =>
        if isIndented line then
          .code (dropBlankLines ((line :: rest.takeWhile continuesCode).map unindent)) ::
            blocks (rest.dropWhile continuesCode)
        else if isBullet line then
          .list ((line :: rest.takeWhile fun l => !isBlankLine l).foldl addItem []) ::
            blocks (rest.dropWhile fun l => !isBlankLine l)
        else
          .paragraph (Text.joinWith [' ']
            ((line :: rest.takeWhile continuesParagraph).map Text.strip)) ::
            blocks (rest.dropWhile continuesParagraph)
termination_by lines => lines.length
decreasing_by
  · simp
  · have := length_dropWhile_le (fun l => !closesFence mark l) rest
    simp only [List.length_drop, List.length_cons]; omega
  · have := length_dropWhile_le continuesCode rest
    simp only [List.length_cons]; omega
  · have := length_dropWhile_le (fun l => !isBlankLine l) rest
    simp only [List.length_cons]; omega
  · have := length_dropWhile_le continuesParagraph rest
    simp only [List.length_cons]; omega

def linesOf (text : List Char) : List Line :=
  Text.splitAt '\n' (Text.replacePair '\r' '\n' ['\n'] text)

end ApiContract.Doc
