import ApiContract.Text.Cut
import ApiContract.Text.Blank

/-! # Path templates

A template is cut at slashes into segments; a segment that opens with a brace is
a parameter segment and the others are static. A placeholder is a brace pair
around at least one character other than a brace. Two templates overlap when
they are equal once the names in their placeholders are erased.
-/
namespace ApiContract.Path

def isBrace (c : Char) : Bool := c == '\x7b' || c == '\x7d'

/-- The name of the placeholder whose opening brace has just been read. -/
def placeholderName? (rest : List Char) : Option (List Char) :=
  match rest.takeWhile (fun c => !isBrace c), rest.dropWhile (fun c => !isBrace c) with
  | [], _ => none
  | name, '\x7d' :: _ => some name
  | _, _ => none

def placeholderChars : List Char → List (List Char)
  | [] => []
  | c :: rest =>
    if c = '\x7b' then
      match placeholderName? rest with
      | some name => name :: placeholderChars rest
      | none => placeholderChars rest
    else placeholderChars rest

def placeholders (template : String) : List String :=
  (placeholderChars template.toList).map String.ofList

/-- Leaves out the next `skip` characters, then erases the placeholder names. -/
def eraseNames : Nat → List Char → List Char
  | _, [] => []
  | skip + 1, _ :: rest => eraseNames skip rest
  | 0, c :: rest =>
    if c = '\x7b' then
      match placeholderName? rest with
      | some name => '\x7b' :: '\x7d' :: eraseNames (name.length + 1) rest
      | none => c :: eraseNames 0 rest
    else c :: eraseNames 0 rest

def dropSlashes (text : List Char) : List Char := Text.dropTrailing (· == '/') text

/-- The shape of a template: names erased, slashes at the end dropped. -/
def shapeChars (template : List Char) : List Char :=
  match dropSlashes (eraseNames 0 template) with
  | [] => ['/']
  | shape => shape

def shape (template : String) : String := String.ofList (shapeChars template.toList)

def opensBrace : List Char → Bool
  | '\x7b' :: _ => true
  | _ => false

def segmentChars (template : List Char) : List (List Char) :=
  (Text.splitAt '/' template).filter (· ≠ [])

def staticSegmentChars (template : List Char) : List (List Char) :=
  (segmentChars template).filter fun s => !opensBrace s

def staticSegments (template : String) : List String :=
  (staticSegmentChars template.toList).map String.ofList

def endsInParameter (template : List Char) : Bool :=
  (segmentChars template).getLast?.any opensBrace

/-- The static segments before the first parameter. -/
def leadingStatic (template : String) : List String :=
  ((segmentChars template.toList).takeWhile fun s => !opensBrace s).map String.ofList

end ApiContract.Path
