import Roster.Decimal.OfDouble
import Roster.Decimal.Arithmetic

/-!
# Totals and means

The sum and the mean of a column's numbers. Both are taken in decimals where that is possible,
so that `0.1` and `0.2` add up to `0.3`; a number or a sum for which decimals have no room makes
the whole total one of doubles, added from first to last.
-/

set_option autoImplicit false

namespace Roster

/-- The sum in decimals; none if some number has no decimal or some partial sum does not fit. -/
def decimalSum (xs : List Double) : Option Decimal :=
  xs.foldlM (fun total x => do total.add? (← Decimal.ofDouble? x)) Decimal.zero

/-- The sum in doubles, from first to last. It starts at negative zero, which leaves every number
as it is. -/
def doubleSum (xs : List Double) : Double :=
  xs.foldl Double.add Double.zero.neg

/-- The sum of numbers. -/
def total (xs : List Double) : Double :=
  match decimalSum xs with
  | some d => d.toDouble
  | none => doubleSum xs

/-- The mean of at least one number. -/
def mean (xs : List Double) : Double :=
  match decimalSum xs with
  | some d => (d.divide xs.length).toDouble
  | none => (doubleSum xs).div (Double.ofNat xs.length)

end Roster
