import ApiContract.Text.Ranges

/-! # Blank characters

The white space of Unicode together with the four information separators. A
text is stripped of blanks on either side, and it is blank when nothing is left.
-/
namespace ApiContract.Text

def blankRanges : Ranges := [
  (0x9, 0xd), (0x1c, 0x20), (0x85, 0x85), (0xa0, 0xa0), (0x1680, 0x1680), (0x2000, 0x200a),
  (0x2028, 0x2029), (0x202f, 0x202f), (0x205f, 0x205f), (0x3000, 0x3000)]

def isBlank (c : Char) : Bool := blankRanges.has c

def dropLeading (p : Char → Bool) (text : List Char) : List Char := text.dropWhile p

def dropTrailing (p : Char → Bool) (text : List Char) : List Char :=
  (text.reverse.dropWhile p).reverse

def strip (text : List Char) : List Char := dropTrailing isBlank (dropLeading isBlank text)

def isBlankText (text : List Char) : Bool := text.all isBlank

end ApiContract.Text
