import Roster.Json.Basic
import Roster.Number.Positional

/-!
# Writing JSON

`Json.compact` writes a document without blanks, `Json.pretty` with one item or field a line and
two blanks of indentation for each level. The two differ in what stands between the parts of a
document, which is a `Layout`; empty arrays and objects stay on one line in both.

A text is written between quotes, with an escape for quotes, backslashes and control characters
and all else as it is. A finite double is written with its shortest digits: positionally if the
exponent of the first digit is between -5 and 15, and then with a point also if it is whole, and
with an explicit exponent otherwise. A number that is not finite is `null`.
-/

set_option autoImplicit false

namespace Roster.Json

/-! ## Texts -/

/-- A digit of a hexadecimal number in small letters. -/
def hexDigit (n : Nat) : Char := Nat.digitChar n

/-- A character inside a quoted text. -/
def escape (c : Char) : List Char :=
  if c = '"' then ['\\', '"']
  else if c = '\\' then ['\\', '\\']
  else if c = '\x08' then ['\\', 'b']
  else if c = '\x0c' then ['\\', 'f']
  else if c = '\n' then ['\\', 'n']
  else if c = '\r' then ['\\', 'r']
  else if c = '\t' then ['\\', 't']
  else if c.toNat < 0x20 then
    ['\\', 'u', '0', '0', hexDigit (c.toNat / 16), hexDigit (c.toNat % 16)]
  else [c]

/-- A text between quotes. -/
def quoted (s : String) : List Char :=
  '"' :: s.toList.flatMap escape ++ ['"']

/-! ## Numbers -/

/-- A whole number. -/
def integerNumeral (n : Int) : List Char :=
  if n < 0 then '-' :: decimalDigits n.natAbs else decimalDigits n.natAbs

/-- A decimal with the exponent of its first digit between -5 and 15 is written positionally;
a whole one ends in `.0`. Any other has one digit in front of the point and a signed
exponent. -/
def scientificNumeral (d : Scientific) : List Char :=
  let digits := decimalDigits d.digits
  -- The exponent of the first digit.
  let e := d.exponent + digits.length - 1
  if -5 ≤ e ∧ e ≤ 15 then
    if 0 ≤ d.exponent then d.positional ++ ['.', '0'] else d.positional
  else
    let mantissa :=
      match digits with
      | [] => []
      | [first] => [first]
      | first :: more => first :: '.' :: more
    mantissa ++ 'e' :: (if e < 0 then '-' else '+') :: decimalDigits e.natAbs

/-- A double; of two equally near shortest decimals the one with the even last digit is
written. -/
def doubleNumeral (x : Double) : List Char :=
  if !x.isFinite then "null".toList
  else if x.isZero then x.signChars ++ ['0', '.', '0']
  else x.signChars ++ scientificNumeral (x.shortest .toEven)

/-! ## Documents -/

/-- What is written between the parts of a document. -/
structure Layout where
  /-- What stands before an item, a field or a closing bracket at a level. -/
  lineStart : Nat → List Char
  /-- What stands between a colon and the value behind it. -/
  gap : List Char

namespace Layout

/-- Nothing but the document. -/
def compact : Layout where
  lineStart _ := []
  gap := []

/-- One item or field a line, indented by two blanks for each level. -/
def pretty : Layout where
  lineStart level := '\n' :: List.replicate (2 * level) ' '
  gap := [' ']

end Layout

mutual

/-- A document whose lines behind the first are at a level and deeper ones. -/
def chars (layout : Layout) (level : Nat) : Json → List Char
  | null => "null".toList
  | bool true => "true".toList
  | bool false => "false".toList
  | integer n => integerNumeral n
  | double x => doubleNumeral x
  | string s => quoted s
  | array [] => ['[', ']']
  | array (item :: items) =>
    '[' :: layout.lineStart (level + 1) ++ chars layout (level + 1) item
      ++ itemChars layout level items
  | object [] => ['\x7b', '\x7d']
  | object ((key, value) :: fields) =>
    '\x7b' :: layout.lineStart (level + 1) ++ quoted key ++ ':' :: layout.gap
      ++ chars layout (level + 1) value ++ fieldChars layout level fields

/-- The items behind the first, and the end of their array. -/
def itemChars (layout : Layout) (level : Nat) : List Json → List Char
  | [] => layout.lineStart level ++ [']']
  | item :: items =>
    ',' :: layout.lineStart (level + 1) ++ chars layout (level + 1) item
      ++ itemChars layout level items

/-- The fields behind the first, and the end of their object. -/
def fieldChars (layout : Layout) (level : Nat) : List (String × Json) → List Char
  | [] => layout.lineStart level ++ ['\x7d']
  | (key, value) :: fields =>
    ',' :: layout.lineStart (level + 1) ++ quoted key ++ ':' :: layout.gap
      ++ chars layout (level + 1) value ++ fieldChars layout level fields

end

/-- A document without blanks. -/
def compact (j : Json) : String := String.ofList (j.chars .compact 0)

/-- A document with one item or field a line. -/
def pretty (j : Json) : String := String.ofList (j.chars .pretty 0)

end Roster.Json
