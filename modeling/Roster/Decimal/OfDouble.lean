import Roster.Number.Double
import Roster.Decimal.Basic

/-!
# From doubles to decimals

`Decimal.ofDouble?` turns a finite double into a decimal of about sixteen digits. The double
`m * 2 ^ e` is first brought to the form `m' / 10 ^ s`: powers of two in the denominator are
traded for powers of ten one at a time, either by dividing `m` by two or by multiplying it by
five, as long as 96 bits have room for it. Then digits are dropped, rounding half up each time,
until the scale is at most 28 and the coefficient has at most 52 bits or no place is left. At
last zeros at the end are dropped.

It is not the nearest decimal in every case, since repeated rounding can add up. Mostly it gives
back the short numeral that a double was read from, but `4096.029` becomes `4096.029000000001`.
-/

set_option autoImplicit false

namespace Roster.Decimal

/-- Trades a denominator `2 ^ steps` for powers of ten: gives a coefficient and a scale with
about the value `m / 2 ^ steps`. The scale starts as `steps` and falls by one at each step that
divides by two instead of multiplying by five. -/
def overTwos : Nat → Nat → Nat → Nat × Nat
  | 0, m, scale => (m, scale)
  | steps + 1, m, scale =>
    if m % 2 = 0 then overTwos steps (m / 2) (scale - 1)
    else if 5 * m < limit then overTwos steps (5 * m) scale
    else overTwos steps (m / 2) (scale - 1)

/-- Trades a factor `2 ^ twos` for powers of ten: gives a coefficient and the power of ten
that multiplies it. A factor goes into the coefficient while there is room below 95 bits;
after that a factor `2` is a factor `10` over a division by five, which fails when too few
factors are left. -/
def timesTwos : Nat → Nat → Nat → Option (Nat × Nat)
  | 0, m, tens => some (m, tens)
  | steps + 1, m, tens =>
    if m < twoTo 95 then timesTwos steps (2 * m) (tens - 1)
    else if steps + 1 < 2 * tens then none
    else timesTwos steps (m / 5) tens

/-- Puts factors of ten into the coefficient; fails when 96 bits have no room for them. -/
def timesTens : Nat → Nat → Option Nat
  | 0, m => some m
  | tens + 1, m => if 10 * m < limit then timesTens tens (10 * m) else none

/-- Drops one digit and rounds half up. -/
def dropDigit (m : Nat) : Nat :=
  if 5 ≤ m % 10 then m / 10 + 1 else m / 10

/-- Drops digits until the scale is at most 28; a coefficient that has become zero before
rounding is zero without places. -/
def toMaxScale : Nat → Nat → Nat × Nat
  | 0, m => (m, 0)
  | scale + 1, m =>
    if scale + 1 ≤ maxScale then (m, scale + 1)
    else if m / 10 = 0 then (0, 0)
    else toMaxScale scale (dropDigit m)

/-- Drops digits after the point until the coefficient has at most 52 bits. -/
def toDoublePrecision : Nat → Nat → Nat × Nat
  | 0, m => (m, 0)
  | scale + 1, m =>
    if m < twoTo 52 then (m, scale + 1) else toDoublePrecision scale (dropDigit m)

/-- Drops zeros at the end of the places after the point. -/
def dropZeros : Nat → Nat → Nat × Nat
  | 0, m => (m, 0)
  | scale + 1, m =>
    if m % 10 = 0 then dropZeros scale (m / 10) else (m, scale + 1)

/-- Rounds `m / 10 ^ scale` to the precision of a double. -/
def normalize (negative : Bool) (m scale : Nat) : Decimal :=
  let (m, scale) := toMaxScale scale m
  let (m, scale) := toDoublePrecision scale m
  let (m, scale) := dropZeros scale m
  { coefficient := signed negative m, scale }

/-- The decimal of a double; none if the double is not finite or too great. -/
def ofDouble? (x : Double) : Option Decimal :=
  if !x.isFinite then none
  else if x.isZero then some zero
  else if x.exponent < 0 then
    let steps := (-x.exponent).toNat
    -- Places after the point: each two below is traded for a ten.
    let (m, scale) := overTwos steps x.significand steps
    some (normalize x.negative m scale)
  else do
    let twos := x.exponent.toNat
    -- A whole number: it must fit, since there are no places to drop.
    let (m, tens) ← timesTwos twos x.significand twos
    let m ← timesTens tens m
    some { coefficient := signed x.negative m, scale := 0 }

end Roster.Decimal
