import Roster.Proofs.Number.Rounding

/-!
# `Roster.Proofs.Number.Shortest`: a shortest decimal is found, and is rounded to its double

`shortest` walks decimal grids from coarse to fine and takes the first point that is rounded to
the double. `covers_of_onGrid` says that such a point lies in the interval of the double: the
comparison of whole numbers that decides it is the one of `Covers`, multiplied by the powers of
two and ten that stand in a denominator.

The walk ends on a grid, so the number that would be taken after it never is. It takes a grid
whose step is at most a quarter of the unit of the double: there the point below the double lies
in the interval (`onInterval_below`), and something is found. `lastGrid_le` says that the last
grid of the walk is as fine as that. It compares powers of ten with powers of two, from above for
the grids of whole numbers and from below for the others. The main result is `covers_shortest`.
-/

set_option autoImplicit false

namespace Roster.Double

variable {x : Double} {tie : Tie} {k : ℤ} {n : ℕ}

/-! ### One grid -/

/-- A quarter of the unit of a double, on the scale on which it and the step of a grid are
whole. -/
def gridQuarter (x : Double) (k : ℤ) : ℕ :=
  twoTo (x.exponent - 2).toNat * tenTo (-k).toNat

/-- The step of a grid on the same scale. -/
def gridStep (x : Double) (k : ℤ) : ℕ :=
  twoTo (-(x.exponent - 2)).toNat * tenTo k.toNat

/-- Whether a point of a grid lies in the interval of a double. -/
def onInterval (x : Double) (k : ℤ) (n : ℕ) : Bool :=
  let (low, high, closed) := x.quarterInterval
  if closed then
    low * x.gridQuarter k ≤ n * x.gridStep k && n * x.gridStep k ≤ high * x.gridQuarter k
  else low * x.gridQuarter k < n * x.gridStep k && n * x.gridStep k < high * x.gridQuarter k

/-- What is found on a grid, in terms of the two neighbours of the double. -/
theorem onGrid_eq (tie : Tie) (x : Double) (k : ℤ) :
    x.onGrid tie k =
      let value := 4 * x.significand * x.gridQuarter k
      let n := value / x.gridStep k
      let r := value % x.gridStep k
      match x.onInterval k n, x.onInterval k (n + 1) with
      | true, true =>
        if 2 * r < x.gridStep k then some n
        else if x.gridStep k < 2 * r then some (n + 1)
        else some (if tie.goesUp n then n + 1 else n)
      | true, false => some n
      | false, true => some (n + 1)
      | false, false => none := rfl

/-- The scale is the same power for both. -/
theorem exists_scale (x : Double) (k : ℤ) : ∃ scale : ℚ, 0 < scale ∧
    (x.gridQuarter k : ℚ) = 2 ^ (x.exponent - 2) * scale ∧
    (x.gridStep k : ℚ) = 10 ^ k * scale := by
  refine ⟨twoTo (-(x.exponent - 2)).toNat * tenTo (-k).toNat, ?_, ?_, ?_⟩
  · exact_mod_cast Nat.mul_pos (twoTo_pos _) (tenTo_pos _)
  · unfold gridQuarter
    rw [Nat.cast_mul, cast_twoTo, mul_assoc]
  · unfold gridStep
    rw [Nat.cast_mul, cast_tenTo]
    ring

/-- The comparison of whole numbers is the comparison with the interval. -/
theorem onInterval_iff : x.onInterval k n = true ↔ x.Covers (n * 10 ^ k) := by
  obtain ⟨scale, hscale, hquarter, hstep⟩ := x.exists_scale k
  have hend (a : ℕ) : (a : ℚ) * 2 ^ (x.exponent - 2) * scale = (a * x.gridQuarter k : ℕ) := by
    rw [Nat.cast_mul, hquarter, mul_assoc]
  have hpoint : (n : ℚ) * 10 ^ k * scale = (n * x.gridStep k : ℕ) := by
    rw [Nat.cast_mul, hstep, mul_assoc]
  unfold onInterval Covers
  generalize x.quarterInterval = interval
  obtain ⟨low, high, closed⟩ := interval
  dsimp only
  rw [← Between.mul_iff hscale, hend, hend, hpoint]
  unfold Between
  cases closed with
  | true => simp only [if_true, Bool.and_eq_true, decide_eq_true_iff, Nat.cast_le]
  | false =>
    simp only [Bool.false_eq_true, if_false, Bool.and_eq_true, decide_eq_true_iff, Nat.cast_lt]

/-- What is found on a grid lies in the interval. -/
theorem covers_of_onGrid (h : x.onGrid tie k = some n) : x.Covers (n * 10 ^ k) := by
  rw [← onInterval_iff]
  rw [onGrid_eq] at h
  dsimp only at h
  split at h
  · split_ifs at h <;> cases h <;> assumption
  · cases h
    assumption
  · cases h
    assumption
  · cases h

/-- On a grid whose step is at most a quarter of the unit the point below a double lies in its
interval. -/
theorem onInterval_below (hpos : 0 < x.significand)
    (hfine : (10 : ℚ) ^ k ≤ 2 ^ (x.exponent - 2)) :
    x.onInterval k (4 * x.significand * x.gridQuarter k / x.gridStep k) = true := by
  obtain ⟨scale, hscale, hquarter, hstep⟩ := x.exists_scale k
  have hstepPos : 0 < x.gridStep k := Nat.mul_pos (twoTo_pos _) (tenTo_pos _)
  have hle := Nat.div_mul_le_self (4 * x.significand * x.gridQuarter k) (x.gridStep k)
  have hlt := Nat.lt_div_mul_add (a := 4 * x.significand * x.gridQuarter k) hstepPos
  generalize 4 * x.significand * x.gridQuarter k / x.gridStep k = n at hle hlt ⊢
  -- The same two inequalities without the scale.
  have hle : (n : ℚ) * 10 ^ k ≤ 4 * x.significand * 2 ^ (x.exponent - 2) := by
    have hcast : (n : ℚ) * x.gridStep k ≤ 4 * x.significand * x.gridQuarter k := by
      exact_mod_cast hle
    rw [hquarter, hstep, ← mul_assoc, ← mul_assoc] at hcast
    exact le_of_mul_le_mul_right hcast hscale
  have hlt : (4 : ℚ) * x.significand * 2 ^ (x.exponent - 2) < n * 10 ^ k + 10 ^ k := by
    have hcast : (4 : ℚ) * x.significand * x.gridQuarter k
        < n * x.gridStep k + x.gridStep k := by
      exact_mod_cast hlt
    rw [hquarter, hstep, ← mul_assoc, ← mul_assoc, ← add_mul] at hcast
    exact lt_of_mul_lt_mul_right hcast hscale.le
  exact onInterval_iff.2 (covers_of_quarter hpos (by linarith) hle)

/-- On a grid that is fine enough something is found. -/
theorem exists_onGrid (tie : Tie) (hpos : 0 < x.significand)
    (hfine : (10 : ℚ) ^ k ≤ 2 ^ (x.exponent - 2)) : ∃ n, x.onGrid tie k = some n := by
  rw [onGrid_eq]
  dsimp only
  rw [onInterval_below hpos hfine]
  cases x.onInterval k (4 * x.significand * x.gridQuarter k / x.gridStep k + 1) with
  | false => exact ⟨_, rfl⟩
  | true =>
    dsimp only
    split_ifs <;> exact ⟨_, rfl⟩

/-! ### The walk -/

/-- The last grid of the walk is fine enough. -/
theorem lastGrid_le (hx : x.isFinite = true) (hpos : 0 < x.significand) :
    (10 : ℚ) ^ (x.coarsestGrid - 23) ≤ 2 ^ (x.exponent - 2) := by
  have hupper := exponent_le hx
  have hlower := x.le_exponent
  have hdigits : x.significand.log2 < 53 := (Nat.log2_lt hpos.ne').2 x.significand_lt
  unfold coarsestGrid
  generalize x.significand.log2 = digits at hdigits ⊢
  generalize hk : ((digits : ℤ) + x.exponent + 1) * 30103 / 100000 + 1 - 23 = k
  rcases le_total 0 k with hnonneg | hnonpos
  · exact ten_zpow_le_two_zpow_of_nonneg hnonneg (by omega)
  · exact ten_zpow_le_two_zpow_of_nonpos hnonpos (by omega)

/-- The shortest decimal is found on a grid. The last grid of the walk is fine enough for any
double, so it does not end without a decimal. -/
theorem exists_shortest (tie : Tie) (hx : x.isFinite = true) (hpos : 0 < x.significand) :
    ∃ n k, x.onGrid tie k = some n ∧ x.shortest tie = ⟨n, k⟩ := by
  obtain ⟨last, hlast⟩ := exists_onGrid tie hpos (lastGrid_le hx hpos)
  unfold shortest
  dsimp only
  generalize hfound : (List.range 24).findSome? (fun (i : ℕ) =>
    (x.onGrid tie (x.coarsestGrid - i)).map fun n =>
      ({ digits := n, exponent := x.coarsestGrid - i } : Scientific)) = found
  cases found with
  | none =>
    -- If nothing were found at all, nothing would be found on the last grid.
    have hnone := List.findSome?_eq_none_iff.1 hfound 23 (by simp)
    rw [Option.map_eq_none_iff] at hnone
    exact absurd (hnone.symm.trans hlast) (by simp)
  | some d =>
    obtain ⟨i, -, hi⟩ := List.exists_of_findSome?_eq_some hfound
    obtain ⟨n, hn, rfl⟩ := Option.map_eq_some_iff.1 hi
    exact ⟨n, _, hn, rfl⟩

/-- The shortest decimal lies in the interval. -/
theorem covers_shortest (tie : Tie) (hx : x.isFinite = true) (hpos : 0 < x.significand) :
    x.Covers ((x.shortest tie).digits * 10 ^ (x.shortest tie).exponent) := by
  obtain ⟨n, k, hgrid, hshortest⟩ := exists_shortest tie hx hpos
  rw [hshortest]
  exact covers_of_onGrid hgrid

end Roster.Double
