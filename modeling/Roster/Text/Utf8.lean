import Roster.Text.Blank

/-!
# UTF-8

`Utf8.decode` reads bytes as UTF-8 and refuses everything the standard refuses: overlong forms,
surrogates, code points above U+10FFFF and sequences that are cut short. A refusal names the
index of the byte at which the first ill-formed sequence starts.

`Utf8.encode` is the way back, and `trimAscii` drops the blanks that can be recognised before
a field has been decoded.
-/

set_option autoImplicit false

namespace Roster.Text

/-- Bytes of a file or of a part of it. -/
abbrev Bytes := List UInt8

namespace Utf8

/-- The six payload bits of a continuation byte `10xxxxxx`. -/
def continuation (b : UInt8) : Option Nat :=
  if 0x80 ≤ b && b < 0xc0 then some (b.toNat - 0x80) else none

/-- The character of a code point that needs at least `least` as its smallest code point. -/
def character (least code : Nat) : Option Char :=
  if least ≤ code ∧ code.isValidChar then some (Char.ofNat code) else none

/-- The character of a two-byte sequence. -/
def two (b0 b1 : UInt8) : Option Char := do
  let x1 ← continuation b1
  if 0xc0 ≤ b0 && b0 < 0xe0 then character 0x80 ((b0.toNat - 0xc0) * 64 + x1) else none

/-- The character of a three-byte sequence. -/
def three (b0 b1 b2 : UInt8) : Option Char := do
  let x1 ← continuation b1
  let x2 ← continuation b2
  if 0xe0 ≤ b0 && b0 < 0xf0 then
    character 0x800 ((b0.toNat - 0xe0) * 4096 + x1 * 64 + x2)
  else none

/-- The character of a four-byte sequence. -/
def four (b0 b1 b2 b3 : UInt8) : Option Char := do
  let x1 ← continuation b1
  let x2 ← continuation b2
  let x3 ← continuation b3
  if 0xf0 ≤ b0 && b0 < 0xf8 then
    character 0x10000 ((b0.toNat - 0xf0) * 262144 + x1 * 4096 + x2 * 64 + x3)
  else none

/-- Decodes bytes the first of which has index `i`, onto the characters before them, the last
of which comes first. A sequence is tried at two, three and four bytes; no lead byte allows two
of these lengths. -/
def decodeFrom (i : Nat) (before : List Char) : Bytes → Except Nat (List Char)
  | [] => .ok before.reverse
  | b0 :: rest =>
    if b0 < 0x80 then decodeFrom (i + 1) (Char.ofNat b0.toNat :: before) rest
    else
      match rest with
      | [] => .error i
      | b1 :: rest =>
        -- The lead byte allows at most one of the three lengths.
        match two b0 b1 with
        | some c => decodeFrom (i + 2) (c :: before) rest
        | none =>
          match rest with
          | [] => .error i
          | b2 :: rest =>
            match three b0 b1 b2 with
            | some c => decodeFrom (i + 3) (c :: before) rest
            | none =>
              match rest with
              | [] => .error i
              | b3 :: rest =>
                match four b0 b1 b2 b3 with
                | some c => decodeFrom (i + 4) (c :: before) rest
                | none => .error i

/-- The text of well-formed UTF-8, or the index at which the first ill-formed sequence starts. -/
def decode (bytes : Bytes) : Except Nat String :=
  (decodeFrom 0 [] bytes).map String.ofList

/-- The UTF-8 bytes of a text. -/
def encode (s : String) : Bytes :=
  s.toUTF8.data.toList

end Utf8

/-- Whether a byte is a blank of ASCII: space, tab, line feed, form feed or carriage return. -/
def isAsciiBlank (b : UInt8) : Bool :=
  b == 0x20 || b == 0x09 || b == 0x0a || b == 0x0c || b == 0x0d

/-- The bytes without the ASCII blanks at both ends. -/
def trimAscii (bytes : Bytes) : Bytes :=
  ((bytes.dropWhile isAsciiBlank).reverse.dropWhile isAsciiBlank).reverse

end Roster.Text
