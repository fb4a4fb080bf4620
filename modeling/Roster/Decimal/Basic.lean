import Roster.Number.Power

/-!
# Decimals of 96 bits

A `Decimal` is `coefficient / 10 ^ scale` with a coefficient of at most 96 bits and a scale of
at most 28. Several decimals have the same value (`50 / 10 ^ 1` and `5 / 10 ^ 0`); they are kept
apart, because the way back to a double depends on the scale.
-/

set_option autoImplicit false

namespace Roster

/-- A decimal number: a whole coefficient, divided by ten to the scale. -/
structure Decimal where
  coefficient : Int
  scale : Nat
deriving DecidableEq

namespace Decimal

/-- All coefficients are smaller than this in absolute value. -/
def limit : Nat := twoTo 96

/-- The greatest number of places after the point. -/
def maxScale : Nat := 28

/-- Zero, without places after the point. -/
def zero : Decimal := { coefficient := 0, scale := 0 }

instance : Inhabited Decimal := ⟨zero⟩

/-- A natural number with the sign of a number. -/
def signed (negative : Bool) (n : Nat) : Int := if negative then -n else n

/-- Whether a decimal is one the format has room for. -/
def Fits (d : Decimal) : Prop := d.coefficient.natAbs < limit ∧ d.scale ≤ maxScale

instance (d : Decimal) : Decidable d.Fits := inferInstanceAs (Decidable (_ ∧ _))

end Decimal

end Roster
