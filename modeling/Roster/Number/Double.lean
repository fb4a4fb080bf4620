import Roster.Number.Power

/-!
# Double-precision numbers

A `Double` is a number of the binary64 format of IEEE 754, held as its sign and its
*magnitude code*: the lower 63 bits of the format read as one natural number. The format is
built so that a greater code is a greater magnitude, which turns every comparison below into
one of whole numbers. Codes from `infinityCode` on are not finite: `infinityCode` itself is
infinity and all above it are not-a-number codes.

A finite double has the exact value `± significand * 2 ^ exponent`. Everything that is said
about finite doubles elsewhere (rounding, reading, printing) is said about these two integers.

The order used by comparisons (`compare?`, `le`) identifies the two zeros and holds of no pair
with a not-a-number; the order used by sorting (`totalKey`) is total and tells them all apart.
-/

set_option autoImplicit false

namespace Roster

/-- A binary64 number: its sign, and its other 63 bits as a natural number. -/
structure Double where
  negative : Bool
  magnitude : Nat
  magnitude_lt : magnitude < twoTo 63 := by decide
deriving DecidableEq

namespace Double

/-- The first code with a leading one in the significand: `2 ^ 52`. -/
def hidden : Nat := twoTo 52

/-- The code of infinity: all eleven exponent bits set and no other. -/
def infinityCode : Nat := 2047 * twoTo 52

/-- Positive zero. -/
def zero : Double := { negative := false, magnitude := 0 }

/-- The infinity of a sign. -/
def infinity (negative : Bool) : Double :=
  { negative, magnitude := infinityCode }

/-- The not-a-number of a sign that reading and arithmetic give. -/
def nan (negative : Bool) : Double :=
  { negative, magnitude := infinityCode + twoTo 51 }

instance : Inhabited Double := ⟨zero⟩

/-- Whether this is not a number. -/
def isNaN (x : Double) : Bool := infinityCode < x.magnitude

/-- Whether this is one of the infinities. -/
def isInfinite (x : Double) : Bool := x.magnitude == infinityCode

/-- Whether this is a finite number. -/
def isFinite (x : Double) : Bool := x.magnitude < infinityCode

/-- Whether this is one of the two zeros. -/
def isZero (x : Double) : Bool := x.magnitude == 0

/-- The integral significand of a finite double: the low 52 bits, with the leading one of a
number that is not subnormal. -/
def significand (x : Double) : Nat :=
  if x.magnitude < hidden then x.magnitude else hidden + x.magnitude % hidden

/-- The exponent of the unit of the significand: `-1074` for subnormal numbers and for the
least normal ones, and one more for each further step of the exponent bits. -/
def exponent (x : Double) : Int :=
  if x.magnitude < hidden then -1074 else (x.magnitude / hidden : Nat) - 1075

/-- The number with the other sign. -/
def neg (x : Double) : Double := { x with negative := !x.negative }

/-- The 64 bits of the format, as a natural number. -/
def toBits (x : Double) : Nat :=
  (if x.negative then twoTo 63 else 0) + x.magnitude

/-! ## Comparison -/

/-- The place of a number on the line of values; both zeros are at `0`. -/
def key (x : Double) : Int :=
  if x.negative then -x.magnitude else x.magnitude

/-- The order of two numbers; none if one of them is not a number. The two zeros are equal. -/
def compare? (x y : Double) : Option Ordering :=
  if x.isNaN || y.isNaN then none else some (compare x.key y.key)

/-- `x ≤ y` as numbers. -/
def le (x y : Double) : Bool := !x.isNaN && !y.isNaN && x.key ≤ y.key

/-- The place of a number in the total order: negative not-a-numbers, negative infinity, the
negative numbers, negative zero, zero, and on to the positive not-a-numbers. -/
def totalKey (x : Double) : Int :=
  if x.negative then -x.magnitude - 1 else x.magnitude

end Double

end Roster
