import Roster.Number.Shortest

/-!
# Positional numerals

Numbers written without an exponent: `Double.positional` with the fewest digits that read back
as the number, and `Double.twoPlaces` with exactly two digits after the point.
-/

set_option autoImplicit false

namespace Roster

/-- The decimal digits of a natural number. -/
def decimalDigits (n : Nat) : List Char := Nat.toDigits 10 n

/-- A run of zeros. -/
def zeros (n : Nat) : List Char := List.replicate n '0'

/-- The digits of `n` with a point before the last `places` of them, at least one digit being
in front of the point. -/
def withPoint (n places : Nat) : List Char :=
  let digits := decimalDigits n
  let digits := zeros (places + 1 - digits.length) ++ digits
  digits.take (digits.length - places) ++ '.' :: digits.drop (digits.length - places)

namespace Scientific

/-- A decimal written positionally, without a point if it is whole. -/
def positional (d : Scientific) : List Char :=
  if 0 ≤ d.exponent then decimalDigits d.digits ++ zeros d.exponent.toNat
  else withPoint d.digits (-d.exponent).toNat

end Scientific

namespace Double

/-- The sign in front of a number: zero keeps its sign. -/
def signChars (x : Double) : List Char := if x.negative then ['-'] else []

/-- A number written positionally with the fewest digits that read back as it. Of two equally
near decimals of that length the one farther from zero is written. -/
def positional (x : Double) : String :=
  if x.isNaN then "NaN"
  else if x.isInfinite then String.ofList (x.signChars ++ "inf".toList)
  else if x.isZero then String.ofList (x.signChars ++ ['0'])
  else String.ofList (x.signChars ++ (x.shortest .up).positional)

/-- A number written with two digits after the point: its exact value is rounded, a tie going
to the even last digit, and the sign is kept also where nothing but zeros remains. -/
def twoPlaces (x : Double) : String :=
  if x.isNaN then "NaN"
  else if x.isInfinite then String.ofList (x.signChars ++ "inf".toList)
  else
    let e := x.exponent
    let hundredths := roundHalfEven (100 * x.significand * twoTo e.toNat) (twoTo (-e).toNat)
    String.ofList (x.signChars ++ withPoint hundredths 2)

end Double

end Roster
