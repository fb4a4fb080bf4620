import Roster.Json.Basic
import Roster.Number.Numeral

/-!
# Reading JSON

`Json.read?` reads a text as one JSON document, with blanks around it and nothing else. A
numeral without point and exponent is a whole number, any other the nearest double. A pair of
escapes for surrogates is the one character they stand for; an escape for half of a pair is
refused, since no text holds it.

The readers take the text from the front and give back what follows. Each nested value is
shorter than the text it stands in, so a bound on the depth of calls that is one more than the
length of the text is never used up.
-/

set_option autoImplicit false

namespace Roster.Json

open Text

/-- Whether a character may stand between the parts of a document. -/
def isSpace (c : Char) : Bool := c == ' ' || c == '\n' || c == '\r' || c == '\t'

/-- The text behind the blanks in front. -/
def skipSpace (cs : List Char) : List Char := cs.dropWhile isSpace

/-- The value of a hexadecimal digit. -/
def hexValue? (c : Char) : Option Nat :=
  if '0' ≤ c ∧ c ≤ '9' then some (c.toNat - '0'.toNat)
  else if 'a' ≤ c ∧ c ≤ 'f' then some (c.toNat - 'a'.toNat + 10)
  else if 'A' ≤ c ∧ c ≤ 'F' then some (c.toNat - 'A'.toNat + 10)
  else none

/-- Reads four hexadecimal digits. -/
def readHex : List Char → Option (Nat × List Char)
  | a :: b :: c :: d :: rest => do
    let a ← hexValue? a
    let b ← hexValue? b
    let c ← hexValue? c
    let d ← hexValue? d
    return (((a * 16 + b) * 16 + c) * 16 + d, rest)
  | _ => none

/-- The character of a pair of surrogates. -/
def pairChar? (high low : Nat) : Option Char :=
  if 0xdc00 ≤ low ∧ low < 0xe000 then
    some (Char.ofNat (0x10000 + (high - 0xd800) * 0x400 + (low - 0xdc00)))
  else none

/-- Reads what follows the backslash of an escape. -/
def readEscape : List Char → Option (Char × List Char)
  | '"' :: rest => some ('"', rest)
  | '\\' :: rest => some ('\\', rest)
  | '/' :: rest => some ('/', rest)
  | 'b' :: rest => some ('\x08', rest)
  | 'f' :: rest => some ('\x0c', rest)
  | 'n' :: rest => some ('\n', rest)
  | 'r' :: rest => some ('\r', rest)
  | 't' :: rest => some ('\t', rest)
  | 'u' :: rest => do
    let (high, rest) ← readHex rest
    -- The first half of a pair needs the second one, which does not stand alone.
    if 0xd800 ≤ high ∧ high < 0xdc00 then
      match rest with
      | '\\' :: 'u' :: rest =>
        let (low, rest) ← readHex rest
        return (← pairChar? high low, rest)
      | _ => none
    else if 0xdc00 ≤ high ∧ high < 0xe000 then none
    else return (Char.ofNat high, rest)
  | _ => none

/-- Reads a quoted text whose opening quote has been read, onto the characters read before, the
last one first. -/
def readQuoted : Nat → List Char → List Char → Option (String × List Char)
  | 0, _, _ => none
  | _ + 1, _, [] => none
  | bound + 1, before, c :: rest =>
    if c = '"' then some (String.ofList before.reverse, rest)
    else if c = '\\' then do
      let (c, rest) ← readEscape rest
      readQuoted bound (c :: before) rest
    else if c.toNat < 0x20 then none
    else readQuoted bound (c :: before) rest

/-- Whether a character may be part of a numeral. -/
def isNumeralChar (c : Char) : Bool :=
  isAsciiDigit c || c == '-' || c == '+' || c == '.' || c == 'e' || c == 'E'

/-- The number of a numeral in the grammar of JSON: no sign but a minus, no zero in front of
another digit, and digits on both sides of a point. -/
def numeral? (cs : List Char) : Option Json :=
  let (negative, digits) := match cs with
    | '-' :: rest => (true, rest)
    | _ => (false, cs)
  let whole := digits.takeWhile isAsciiDigit
  let rest := digits.dropWhile isAsciiDigit
  -- A zero in front of another digit is refused.
  if whole.isEmpty || (whole.length != 1 && whole.head? == some '0') then none
  else if rest.isEmpty then
    let n : Int := Numeral.digitsValue whole
    some (.integer (if negative then -n else n))
  else if rest.head? == some '.' && !((rest.drop 1).head?.any isAsciiDigit) then none
  else (Numeral.readUnsigned negative digits).map .double

/-- Reads a key and the colon behind it. -/
def readKey (cs : List Char) : Option (String × List Char) :=
  match cs with
  | '"' :: rest => do
    let (key, rest) ← readQuoted (rest.length + 1) [] rest
    match skipSpace rest with
    | ':' :: rest => return (key, rest)
    | _ => none
  | _ => none

mutual

/-- Reads a document that starts with the first character. -/
def readValue : Nat → List Char → Option (Json × List Char)
  | 0, _ => none
  | bound + 1, cs =>
    match cs with
    | 'n' :: 'u' :: 'l' :: 'l' :: rest => some (.null, rest)
    | 't' :: 'r' :: 'u' :: 'e' :: rest => some (.bool true, rest)
    | 'f' :: 'a' :: 'l' :: 's' :: 'e' :: rest => some (.bool false, rest)
    | '"' :: rest => (readQuoted (rest.length + 1) [] rest).map fun (s, rest) => (.string s, rest)
    | '[' :: rest =>
      match skipSpace rest with
      | ']' :: rest => some (.array [], rest)
      | rest => (readItems bound rest).map fun (items, rest) => (.array items, rest)
    | '\x7b' :: rest =>
      match skipSpace rest with
      | '\x7d' :: rest => some (.object [], rest)
      | rest => (readFields bound rest).map fun (fields, rest) => (.object fields, rest)
    | _ =>
      (numeral? (cs.takeWhile isNumeralChar)).map fun n => (n, cs.dropWhile isNumeralChar)

/-- Reads the items of an array, of which at least one is left. -/
def readItems : Nat → List Char → Option (List Json × List Char)
  | 0, _ => none
  | bound + 1, cs => do
    let (item, rest) ← readValue bound (skipSpace cs)
    match skipSpace rest with
    | ',' :: rest =>
      let (items, rest) ← readItems bound rest
      return (item :: items, rest)
    | ']' :: rest => return ([item], rest)
    | _ => none

/-- Reads the fields of an object, of which at least one is left. -/
def readFields : Nat → List Char → Option (List (String × Json) × List Char)
  | 0, _ => none
  | bound + 1, cs => do
    let (key, rest) ← readKey (skipSpace cs)
    let (value, rest) ← readValue bound (skipSpace rest)
    match skipSpace rest with
    | ',' :: rest =>
      let (fields, rest) ← readFields bound rest
      return ((key, value) :: fields, rest)
    | '\x7d' :: rest => return ([(key, value)], rest)
    | _ => none

end

/-- The document that a text is. -/
def read? (s : String) : Option Json := do
  let cs := s.toList
  let (value, rest) ← readValue (cs.length + 1) (skipSpace cs)
  if (skipSpace rest).isEmpty then some value else none

end Roster.Json
