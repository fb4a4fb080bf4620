import Roster.Number.Rounding
import Roster.Text.Numeric

/-!
# Reading numerals

A numeral is an optional sign, then ASCII digits with an optional point among, before or after
them, then an optional exponent; or one of the words for infinity and not-a-number, in letters
of any case. `Numeral.read?` gives the double nearest to what the text denotes. It reads the
whole text or nothing: no blanks, no separators, no trailing characters.
-/

set_option autoImplicit false

namespace Roster.Numeral

open Text

/-- The number that ASCII digits denote. -/
def digitsValue (digits : List Char) : Nat :=
  digits.foldl (fun n c => 10 * n + (c.toNat - '0'.toNat)) 0

/-- The double nearest to `whole.fraction × 10 ^ e`, both parts given by their digits. -/
def ofDigits (negative : Bool) (whole fraction : List Char) (e : Int) : Double :=
  Double.ofDecimal negative (digitsValue (whole ++ fraction)) (e - fraction.length)

/-- Reads digits that must be there and fill the text. -/
def readDigits (cs : List Char) : Option Nat :=
  if cs.isEmpty || !cs.all isAsciiDigit then none else some (digitsValue cs)

/-- Reads the exponent part; an empty text is the exponent zero. -/
def readExponent : List Char → Option Int
  | [] => some 0
  | mark :: cs =>
    if mark == 'e' || mark == 'E' then
      match cs with
      | '-' :: digits => (readDigits digits).map fun n => -(n : Int)
      | '+' :: digits => (readDigits digits).map fun n => (n : Int)
      | digits => (readDigits digits).map fun n => (n : Int)
    else none

/-- Reads a word for a number that has no digits. -/
def readWord (negative : Bool) (cs : List Char) : Option Double :=
  let word := cs.map Char.toLower
  if word = "inf".toList || word = "infinity".toList then some (Double.infinity negative)
  else if word = "nan".toList then some (Double.nan negative)
  else none

/-- Reads a numeral whose sign has been read. -/
def readUnsigned (negative : Bool) (cs : List Char) : Option Double :=
  let whole := cs.takeWhile isAsciiDigit
  let afterWhole := cs.dropWhile isAsciiDigit
  let (fraction, rest) :=
    match afterWhole with
    | '.' :: r => (r.takeWhile isAsciiDigit, r.dropWhile isAsciiDigit)
    | r => ([], r)
  if whole.isEmpty && fraction.isEmpty then readWord negative cs
  else (readExponent rest).map (ofDigits negative whole fraction)

/-- The double nearest to what a text denotes, if the text is a numeral. -/
def read? (s : String) : Option Double :=
  match s.toList with
  | '-' :: cs => readUnsigned true cs
  | '+' :: cs => readUnsigned false cs
  | cs => readUnsigned false cs

end Roster.Numeral
