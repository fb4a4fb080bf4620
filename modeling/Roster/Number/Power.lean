/-!
# Powers of two and ten

The two powers that the formats of numbers are made of, as functions of a natural exponent.
-/

set_option autoImplicit false

namespace Roster

/-- Two to a power. -/
def twoTo (n : Nat) : Nat := Nat.pow 2 n

/-- Ten to a power. -/
def tenTo (n : Nat) : Nat := Nat.pow 10 n

end Roster
