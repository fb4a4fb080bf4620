import Roster.Text.CharRange

/-!
# Blank characters

The characters of the Unicode property `White_Space`, and what trimming makes of them: `trim`
drops the blanks at both ends of a text and keeps those inside it.
-/

set_option autoImplicit false

namespace Roster.Text

/-- The ranges of the property `White_Space`. -/
def blankRanges : List CharRange :=
  [
    (0x9, 0xd), (0x20, 0x20), (0x85, 0x85), (0xa0, 0xa0), (0x1680, 0x1680), (0x2000, 0x200a),
    (0x2028, 0x2029), (0x202f, 0x202f), (0x205f, 0x205f), (0x3000, 0x3000)
  ]

/-- Whether a character is blank: one of the 25 characters with the property `White_Space`. -/
def isBlank (c : Char) : Bool :=
  CharRange.contains c.toNat blankRanges

/-- The characters without the blanks in front. -/
def trimStart (cs : List Char) : List Char :=
  cs.dropWhile isBlank

/-- The characters without the blanks at the end. -/
def trimEnd (cs : List Char) : List Char :=
  (cs.reverse.dropWhile isBlank).reverse

/-- The text without the blanks at both ends. -/
def trim (s : String) : String :=
  String.ofList (trimEnd (trimStart s.toList))

end Roster.Text
