import Roster.Number.Rounding

/-!
# Shortest decimals

The fewest decimal digits that name a double: among all decimals that round to it, those with
the fewest digits, and of these the one nearest to it. Two may be equally near; which of them is
taken is for the format that writes the number to say, as a `Tie`.

The decimals that round to a finite double `m * 2 ^ q` form an interval around it. Its upper end
is half a unit away. So is its lower end, unless the double is a power of two: the doubles below
it are then twice as dense, and the lower end is a quarter of a unit away. The ends belong to
the interval exactly if `m` is even. `shortest` walks the decimal grids `10 ^ k` from coarse to
fine and stops at the first grid with a point in the interval. On each grid only the two
neighbours of the double need a look: if some point of the grid lies in the interval, so does
one of them.
-/

set_option autoImplicit false

namespace Roster

/-- Which of two equally near decimals is taken. -/
inductive Tie where
  /-- The one whose last digit is even. -/
  | toEven
  /-- The one farther from zero. -/
  | up
deriving DecidableEq

namespace Tie

/-- Whether a tie goes to the upper of two neighbours, the lower of which is `n`. -/
def goesUp (n : Nat) : Tie → Bool
  | toEven => n % 2 == 1
  | up => true

end Tie

/-- A positive decimal `digits * 10 ^ exponent`. -/
structure Scientific where
  digits : Nat
  exponent : Int
deriving DecidableEq

namespace Double

/-- The interval of a positive finite double in quarters of its unit: lower end, upper end and
whether the ends belong to it. -/
def quarterInterval (x : Double) : Nat × Nat × Bool :=
  let m := x.significand
  -- At a power of two the doubles below are twice as close.
  let below := if m = hidden ∧ hidden < x.magnitude then 1 else 2
  (4 * m - below, 4 * m + 2, m % 2 == 0)

/-- The neighbour of a positive finite double on the grid `10 ^ k` that rounds to it, if there
is one; of two the nearer. -/
def onGrid (tie : Tie) (x : Double) (k : Int) : Option Nat :=
  let (low, high, closed) := x.quarterInterval
  -- a quarter of the unit is `quarter / step` grid steps
  let e := x.exponent - 2
  let quarter := twoTo e.toNat * tenTo (-k).toNat
  let step := twoTo (-e).toNat * tenTo k.toNat
  let admissible (n : Nat) : Bool :=
    if closed then low * quarter ≤ n * step && n * step ≤ high * quarter
    else low * quarter < n * step && n * step < high * quarter
  let value := 4 * x.significand * quarter
  let n := value / step
  let r := value % step
  -- The value lies between `n` and `n + 1` steps, and either may round to it.
  match admissible n, admissible (n + 1) with
  | true, true =>
    if 2 * r < step then some n
    else if step < 2 * r then some (n + 1)
    else some (if tie.goesUp n then n + 1 else n)
  | true, false => some n
  | false, true => some (n + 1)
  | false, false => none

/-- A grid exponent at or above the place of the first digit of a positive finite double:
`30103 / 100000` is a little more than the decimal logarithm of two. -/
def coarsestGrid (x : Double) : Int :=
  (x.significand.log2 + x.exponent + 1) * 30103 / 100000 + 1

/-- The shortest decimal that rounds to a positive finite double. Seventeen digits always
suffice, and the walk starts at most three grids above the first digit. -/
def shortest (tie : Tie) (x : Double) : Scientific :=
  let top := x.coarsestGrid
  let found := (List.range 24).findSome? fun (i : Nat) =>
    (x.onGrid tie (top - i)).map fun n => { digits := n, exponent := top - i }
  found.getD { digits := x.significand, exponent := x.exponent }

end Double

end Roster
