import Roster.Number.Rounding
import Roster.Decimal.Basic

/-!
# Sums and averages of decimals

`Decimal.add?` is exact as long as 96 bits have room for the sum at the greater scale of the
two; a longer sum is rounded once, to the greatest scale at which it fits. `Decimal.divide`
divides by a count to as many places as fit, in rounds of up to nine digits.
-/

set_option autoImplicit false

namespace Roster.Decimal

/-! ## Addition -/

/-- The coefficient of a decimal at a scale that is at least its own. -/
def atScale (d : Decimal) (scale : Nat) : Int :=
  d.coefficient * tenTo (scale - d.scale)

/-- The sum `total / 10 ^ (scale + dropped)` rounded to the greatest scale, from `scale` down,
at which its coefficient fits. -/
def fit? (total : Int) : Nat → Nat → Option Decimal
  | scale, dropped =>
    let n := roundHalfEven total.natAbs (tenTo dropped)
    if n < limit then some { coefficient := signed (total < 0) n, scale }
    else
      match scale with
      | 0 => none
      | scale + 1 => fit? total scale (dropped + 1)

/-- The sum of two decimals; none if it is too great. A zero leaves the other operand as it
is, its scale included. -/
def add? (x y : Decimal) : Option Decimal :=
  if x.coefficient = 0 then some y
  else if y.coefficient = 0 then some x
  else
    let scale := max x.scale y.scale
    fit? (x.atScale scale + y.atScale scale) scale 0

/-! ## Division by a count -/

/-- The greatest `p`, at most a bound, for which `q * 10 ^ p` fits. -/
def spareDigits (q : Nat) : Nat → Nat
  | 0 => 0
  | p + 1 => if q * tenTo (p + 1) < limit then p + 1 else spareDigits q p

/-- The spare digits never exceed the bound they are looked for under. -/
theorem spareDigits_le (q bound : Nat) : spareDigits q bound ≤ bound := by
  induction bound with
  | zero => simp [spareDigits]
  | succ p ih => unfold spareDigits; split <;> omega

/-- A quotient rounded to one digit less. Of what the division leaves behind `q` only whether
it is zero matters: a last digit of five is a tie just then. -/
def dropLast (q : Nat) (exact : Bool) : Nat :=
  if q % 10 = 5 ∧ exact then q / 10 + q / 10 % 2
  else if 5 ≤ q % 10 then q / 10 + 1
  else q / 10

/-- Continues a division with quotient `q` and remainder `r` at a scale until nothing is left,
the scale is exhausted or the coefficient is full. -/
def divideFrom (count q r scale : Nat) : Nat × Nat :=
  if r = 0 then (q, scale)
  else
    match hp : spareDigits q (min 9 (maxScale - scale)) with
    | 0 =>
      -- No digit is spared, so the remainder decides the last one.
      let rounded := if 2 * r < count then q else if count < 2 * r then q + 1 else q + q % 2
      if rounded < limit then (rounded, scale) else (dropLast rounded true, scale - 1)
    | p + 1 =>
      let rest := r * tenTo (p + 1)
      let q' := q * tenTo (p + 1) + rest / count
      if q' < limit then divideFrom count q' (rest % count) (scale + (p + 1))
      else (dropLast q' (rest % count == 0), scale + p)
termination_by maxScale - scale
decreasing_by
  have := spareDigits_le q (min 9 (maxScale - scale))
  omega

/-- Drops `10 ^ digits` from a coefficient if it has that many zeros at the end and as many
places; only coefficients divisible by `power`, a power of two in `10 ^ digits`, are looked
at. -/
def dropPower (power digits : Nat) (d : Nat × Nat) : Nat × Nat :=
  if d.1 % power = 0 ∧ digits ≤ d.2 ∧ d.1 % tenTo digits = 0 then
    (d.1 / tenTo digits, d.2 - digits)
  else d

/-- Drops zeros at the end: eight at a time while possible, then once four, two and one. Some
may remain. The test for eight asks for more powers of two than eight zeros bring. -/
def dropZeroRuns (d : Nat × Nat) : Nat × Nat :=
  let eights (d : Nat × Nat) := dropPower (twoTo 32) 8 d
  dropPower 2 1 (dropPower 4 2 (dropPower 16 4 (eights (eights (eights d)))))

/-- The quotient of a decimal by a positive count. An exact quotient keeps the scale. -/
def divide (x : Decimal) (count : Nat) : Decimal :=
  let n := x.coefficient.natAbs
  if n = 0 then zero
  else
    let (q, scale) :=
      -- Zeros are dropped only behind a division that had a remainder.
      if n % count = 0 then (n / count, x.scale)
      else dropZeroRuns (divideFrom count (n / count) (n % count) x.scale)
    { coefficient := signed (x.coefficient < 0) q, scale }

/-! ## Back to doubles -/

/-- The double of a decimal. A whole number is rounded once. Otherwise the whole part and the
fraction are rounded on their own and added, and the sum is rounded once more to the scale: it
is multiplied by the power of ten, rounded to a whole number and divided again. -/
def toDouble (d : Decimal) : Double :=
  let n := d.coefficient.natAbs
  let unsigned :=
    if d.scale = 0 then Double.ofNat n
    else
      let whole := Double.ofNat (n / tenTo d.scale)
      let fraction :=
        Double.div (Double.ofNat (n % tenTo d.scale)) (Double.ofNat (tenTo d.scale))
      if fraction.isZero then whole
      else
        -- The power is exact up to `10 ^ 22` only.
        let power := Double.pow (Double.ofNat 10) d.scale
        Double.div (Double.round (Double.mul (Double.add whole fraction) power)) power
  if d.coefficient < 0 then unsigned.neg else unsigned

end Roster.Decimal
