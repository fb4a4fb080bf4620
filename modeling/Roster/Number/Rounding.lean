import Roster.Number.Double

/-!
# Rounding to doubles, and arithmetic

`Double.ofQuotient` gives the double nearest to a quotient of natural numbers, a tie going to
the even significand. All arithmetic is defined through it: an operation is carried out exactly
on whole numbers and rounded once at the end.

The rounding works on magnitude codes. For the unit exponent `q` at which the quotient has 53
bits (or the least unit exponent, if it is smaller), the quotient is rounded to a whole number
`m` of units, and the code is `(q + 1074) * 2 ^ 52 + m`. The same formula holds for subnormal
numbers, where `q` is `-1074`, and when rounding carries into a 54th bit, where the next code
up is the right one.
-/

set_option autoImplicit false

namespace Roster

/-- The whole number nearest to `n / d`, a tie going to the even one. -/
def roundHalfEven (n d : Nat) : Nat :=
  let q := n / d
  let r := n % d
  if 2 * r < d then q
  else if d < 2 * r then q + 1
  else q + q % 2

/-- The exponent of the greatest power of two that is at most `n / d`, for positive `n` and
`d`. -/
def floorLog2 (n d : Nat) : Int :=
  let e : Int := (n.log2 : Int) - d.log2
  if d * twoTo e.toNat ≤ n * twoTo (-e).toNat then e else e - 1

namespace Double

/-- The magnitude code of the number nearest to `n / d`; it may lie beyond infinity. -/
def nearestCode (n d : Nat) : Nat :=
  if n = 0 then 0
  else
    let q := max (floorLog2 n d - 52) (-1074)
    (q + 1074).toNat * hidden + roundHalfEven (n * twoTo (-q).toNat) (d * twoTo q.toNat)

/-- The double nearest to `± n / d`, for positive `d`; infinity if the quotient is out of
range. -/
def ofQuotient (negative : Bool) (n d : Nat) : Double where
  negative := negative
  magnitude := min (nearestCode n d) infinityCode
  magnitude_lt := Nat.lt_of_le_of_lt (Nat.min_le_right _ _) (by decide)

/-- The double nearest to a natural number. -/
def ofNat (n : Nat) : Double := ofQuotient false n 1

/-- The double nearest to a whole number. -/
def ofInt (i : Int) : Double := ofQuotient (i < 0) i.natAbs 1

/-- The double nearest to `± n * 2 ^ e`. -/
def ofScaled (negative : Bool) (n : Nat) (e : Int) : Double :=
  ofQuotient negative (n * twoTo e.toNat) (twoTo (-e).toNat)

/-- The double nearest to `± n * 10 ^ e`. An exponent that leaves no doubt that the number is
too great or too small decides at once, so that no power beyond the range is computed. -/
def ofDecimal (negative : Bool) (n : Nat) (e : Int) : Double :=
  if n = 0 then { zero with negative }
  else if 400 < e then infinity negative
  else if e < -(401 + (n.log2 : Int)) then { zero with negative }
  else ofQuotient negative (n * tenTo e.toNat) (tenTo (-e).toNat)

/-- The exact value of a finite double as a whole number of units `2 ^ e`, for an `e` that is
at most its exponent. -/
def units (x : Double) (e : Int) : Int :=
  let n : Int := x.significand * twoTo (x.exponent - e).toNat
  if x.negative then -n else n

/-- The sum. A sum of opposite numbers is positive zero, and negative zero comes only from two
negative zeros. -/
def add (x y : Double) : Double :=
  if x.isNaN || y.isNaN then nan false
  else if x.isInfinite then
    if y.isInfinite && x.negative != y.negative then nan false else x
  else if y.isInfinite then y
  else
    let e := min x.exponent y.exponent
    let n := x.units e + y.units e
    if n = 0 then { zero with negative := x.negative && y.negative }
    else ofScaled (n < 0) n.natAbs e

/-- The product. -/
def mul (x y : Double) : Double :=
  let negative := x.negative != y.negative
  if x.isNaN || y.isNaN then nan false
  else if x.isInfinite || y.isInfinite then
    if x.isZero || y.isZero then nan false else infinity negative
  else ofScaled negative (x.significand * y.significand) (x.exponent + y.exponent)

/-- The quotient. -/
def div (x y : Double) : Double :=
  let negative := x.negative != y.negative
  if x.isNaN || y.isNaN then nan false
  else if x.isInfinite then
    if y.isInfinite then nan false else infinity negative
  else if y.isInfinite then { zero with negative }
  else if y.isZero then
    if x.isZero then nan false else infinity negative
  else
    let e := x.exponent - y.exponent
    ofQuotient negative (x.significand * twoTo e.toNat) (y.significand * twoTo (-e).toNat)

/-- The nearest whole number, a half going away from zero. -/
def round (x : Double) : Double :=
  if !x.isFinite || 0 ≤ x.exponent then x
  else
    let unit := twoTo (-x.exponent).toNat
    ofQuotient x.negative ((2 * x.significand + unit) / (2 * unit)) 1

/-- The power by repeated squaring, rounding every product: the square is taken only while
binary digits of the exponent remain. -/
def pow (x : Double) (n : Nat) : Double :=
  go x (ofNat 1) n
where
  /-- Multiplies `product` by the power `square ^ n`. -/
  go (square product : Double) (n : Nat) : Double :=
    let product := if n % 2 = 1 then mul product square else product
    if n / 2 = 0 then product else go (mul square square) product (n / 2)
  termination_by n
  decreasing_by omega

end Double

end Roster
