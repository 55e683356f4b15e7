import ApiContract.Text.Quoted

/-! # Escaped text

A text between double quotes in plain ASCII: short escapes for the quote, the
backslash and the common controls, and four hexadecimal digits for each UTF-16
unit of any other character outside the printable ASCII range. The same form is
a JSON string and a Java string literal.
-/
namespace ApiContract.Text

def units (c : Char) : List Nat :=
  if c.toNat < 0x10000 then [c.toNat]
  else [0xd800 + (c.toNat - 0x10000) / 0x400, 0xdc00 + (c.toNat - 0x10000) % 0x400]

def shortEscape? (c : Char) : Option Char :=
  if c = '\x22' then some '\x22'
  else if c = '\\' then some '\\'
  else if c = '\n' then some 'n'
  else if c = '\r' then some 'r'
  else if c = '\t' then some 't'
  else if c = '\x0c' then some 'f'
  else if c = '\x08' then some 'b'
  else none

def escapedUnit (n : Nat) : List Char := ['\\', 'u'] ++ hexDigits 4 n

def escapedChar (c : Char) : List Char :=
  match shortEscape? c with
  | some e => ['\\', e]
  | none =>
    if 0x20 ≤ c.toNat ∧ c.toNat ≤ 0x7e then [c]
    else (units c).flatMap escapedUnit

def escapedChars (text : List Char) : List Char :=
  '\x22' :: text.flatMap escapedChar ++ ['\x22']

def escaped (text : String) : String := String.ofList (escapedChars text.toList)

end ApiContract.Text
