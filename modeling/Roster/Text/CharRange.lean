/-!
# Character ranges

A character property is given as a list of closed code-point ranges in increasing order.
`CharRange.contains` looks a code point up in such a list; it stops at the first range that
starts beyond the code point, so the order of the list matters.
-/

set_option autoImplicit false

namespace Roster.Text

/-- A closed range of code points, first and last. -/
abbrev CharRange := Nat × Nat

/-- Whether a code point lies in one of the ranges, which are in increasing order. -/
def CharRange.contains (code : Nat) : List CharRange → Bool
  | [] => false
  | (first, last) :: later => first ≤ code && (code ≤ last || CharRange.contains code later)

end Roster.Text
