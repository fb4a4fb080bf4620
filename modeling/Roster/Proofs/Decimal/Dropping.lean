import Mathlib.Algebra.Order.Ring.Pow
import Mathlib.Logic.Function.Iterate
import Roster.Decimal.OfDouble
import Roster.Proofs.Decimal.Adding

/-!
# `Roster.Proofs.Decimal.Dropping`: what is left when digits are dropped one by one

A double becomes a decimal in three strokes. Its binary places are traded for decimal ones, which
loses a little where 96 bits have no room (`overTwos_bounds`). Then digits are dropped one at a
time and each time rounded, until at most 52 bits and 28 places are left. At last zeros at the end
are dropped, which changes nothing.

What the dropping arrives at is not the nearest number: each step may round up what the step
before has rounded up to a half already. `iterate_dropDigit_bounds` is the invariant of it. After
any number of steps the result is less than `4 / 9` too small and less than `5 / 9` too great, so
`n` comes out of all numbers that are less than `5 / 9` below `n` and less than `4 / 9` above. The
main result, `quotient_dropped`, says so of the two functions that drop digits. Besides the end it
needs the steps before: they must not stop there, so none of them may be too small (`Nears`).
-/

set_option autoImplicit false

namespace Roster

namespace Decimal

variable {m n k j scale places steps : ℕ}

/-- The number that a coefficient and a scale stand for. -/
def quotient (d : ℕ × ℕ) : ℚ := d.1 / 10 ^ d.2

/-! ### Trading twos for tens -/

/-- The bounds of one step more. -/
theorem bounds_succ {v v' q : ℚ} (hle : v' ≤ v) (hloss : v * (1 - 5 / 2 ^ 96) ≤ v')
    (h : q ≤ v' ∧ v' * (1 - 5 / 2 ^ 96) ^ steps ≤ q) :
    q ≤ v ∧ v * (1 - 5 / 2 ^ 96) ^ (steps + 1) ≤ q := by
  refine ⟨h.1.trans hle, ?_⟩
  calc v * (1 - 5 / 2 ^ 96) ^ (steps + 1)
      = v * (1 - 5 / 2 ^ 96) * (1 - 5 / 2 ^ 96) ^ steps := by ring
    _ ≤ v' * (1 - 5 / 2 ^ 96) ^ steps := by gcongr
    _ ≤ q := h.2

/-- Trading never gains, and each step loses at most `5 / 2 ^ 96` of the number. The induction is on
the steps. An even coefficient is halved exactly, an odd one is multiplied by five as long as there
is room, and only without room a half is lost. -/
theorem overTwos_bounds (h : steps ≤ scale) :
    quotient (overTwos steps m scale) ≤ m * 5 ^ steps / 10 ^ scale ∧
      m * 5 ^ steps / 10 ^ scale * (1 - 5 / 2 ^ 96) ^ steps
        ≤ quotient (overTwos steps m scale) := by
  induction steps, m, scale using overTwos.induct with
  | case1 m scale => simp [overTwos, quotient]
  | case2 steps m scale heven ih =>
    obtain ⟨half, rfl⟩ : ∃ half, m = 2 * half := ⟨m / 2, by omega⟩
    obtain ⟨scale, rfl⟩ : ∃ scale', scale = scale' + 1 := ⟨scale - 1, by omega⟩
    have hvalue : ((2 * half : ℕ) : ℚ) * 5 ^ (steps + 1) / 10 ^ (scale + 1)
        = half * 5 ^ steps / 10 ^ scale := by
      push_cast
      rw [pow_succ, pow_succ]
      field_simp
      ring
    rw [overTwos, if_pos heven, hvalue]
    rw [Nat.mul_div_cancel_left _ two_pos, Nat.add_sub_cancel] at ih ⊢
    exact bounds_succ le_rfl
      (mul_le_of_le_one_right (by positivity) (by norm_num)) (ih (by omega))
  | case3 steps m scale hodd hroom ih =>
    have hvalue : (m : ℚ) * 5 ^ (steps + 1) / 10 ^ scale
        = (5 * m : ℕ) * 5 ^ steps / 10 ^ scale := by
      push_cast
      ring
    rw [overTwos, if_neg hodd, if_pos hroom, hvalue]
    exact bounds_succ le_rfl
      (mul_le_of_le_one_right (by positivity) (by norm_num)) (ih (by omega))
  | case4 steps m scale hodd hfull ih =>
    obtain ⟨half, rfl⟩ : ∃ half, m = 2 * half + 1 := ⟨m / 2, by omega⟩
    obtain ⟨scale, rfl⟩ : ∃ scale', scale = scale' + 1 := ⟨scale - 1, by omega⟩
    have hhalf : (2 * half + 1) / 2 = half := by omega
    have hfull' : (2 : ℚ) ^ 96 ≤ 5 * (2 * half + 1) := by
      rw [limit_eq, not_lt] at hfull
      exact_mod_cast hfull
    -- A half is lost of a number that is at least `2 ^ 96 / 5`.
    have hvalue : ((2 * half + 1 : ℕ) : ℚ) * 5 ^ (steps + 1) / 10 ^ (scale + 1)
        = (half + 1 / 2) * (5 ^ steps / 10 ^ scale) := by
      push_cast
      rw [pow_succ, pow_succ]
      field_simp
      ring
    have hvalue' : (half : ℚ) * 5 ^ steps / 10 ^ scale = half * (5 ^ steps / 10 ^ scale) :=
      mul_div_assoc _ _ _
    rw [overTwos, if_neg hodd, if_neg hfull, hvalue]
    rw [hhalf, Nat.add_sub_cancel] at ih ⊢
    refine bounds_succ ?_ ?_ (ih (by omega))
    · rw [hvalue']
      gcongr
      linarith
    · rw [hvalue', mul_right_comm]
      gcongr
      linarith

/-- What is kept of the number in as many steps as the exponent of a double allows. -/
theorem le_kept (h : steps ≤ 1074) :
    (1 : ℚ) - 1074 * (5 / 2 ^ 96) ≤ (1 - 5 / 2 ^ 96) ^ steps :=
  calc (1 : ℚ) - 1074 * (5 / 2 ^ 96) = 1 + (1074 : ℕ) * -(5 / 2 ^ 96) := by norm_num
    _ ≤ (1 + -(5 / 2 ^ 96)) ^ 1074 := one_add_mul_le_pow (by norm_num) 1074
    _ ≤ (1 + -(5 / 2 ^ 96)) ^ steps := pow_le_pow_of_le_one (by norm_num) (by norm_num) h
    _ = (1 - 5 / 2 ^ 96) ^ steps := by rw [← sub_eq_add_neg]

/-! ### Dropping digits -/

/-- A dropped digit is rounded, with a five rounded up. -/
theorem dropDigit_bounds (m : ℕ) : 10 * dropDigit m ≤ m + 5 ∧ m ≤ 10 * dropDigit m + 4 := by
  unfold dropDigit
  split <;> omega

/-- The errors of all steps together stay below a limit that no number of steps reaches. -/
theorem iterate_dropDigit_bounds (k m : ℕ) :
    (m : ℚ) / 10 ^ k - 4 / 9 < (dropDigit^[k] m : ℕ) ∧
      ((dropDigit^[k] m : ℕ) : ℚ) < m / 10 ^ k + 5 / 9 := by
  induction k with
  | zero => constructor <;> norm_num
  | succ k ih =>
    rw [Function.iterate_succ_apply']
    generalize dropDigit^[k] m = d at ih
    obtain ⟨hlow, hhigh⟩ := dropDigit_bounds d
    have hlow : (10 * dropDigit d : ℚ) ≤ d + 5 := by exact_mod_cast hlow
    have hhigh : (d : ℚ) ≤ 10 * dropDigit d + 4 := by exact_mod_cast hhigh
    have hstep : (m : ℚ) / 10 ^ (k + 1) = m / 10 ^ k / 10 := by rw [pow_succ, div_div]
    rw [hstep]
    constructor <;> linarith

/-- Whether a number is near enough to a whole number for this to be what dropping digits arrives
at. The bound from below is in proportion to the number, so that it is known of the steps before
the last one too that they are not too small. -/
def Nears (n : ℕ) (v : ℚ) : Prop := n * (1 - 10 / (9 * 2 ^ 53)) ≤ v ∧ v < n + 4 / 9

namespace Nears

/-- A number that a coefficient of 52 bits is near to is less than `5 / 9` below it. -/
theorem lt {v : ℚ} (h : Nears n v) (hn : n < 2 ^ 52) : n - 5 / 9 < v := by
  have hn : (n : ℚ) < 2 ^ 52 := by exact_mod_cast hn
  obtain ⟨hlow, -⟩ := h
  linarith

/-- The only whole number near enough is the number itself. -/
theorem eq_of_natCast (h : Nears n m) (hn : n < 2 ^ 52) : m = n := by
  have hlow := h.lt hn
  obtain ⟨-, hhigh⟩ := h
  have hlow : (n : ℚ) < m + 1 := by linarith
  have hhigh : (m : ℚ) < n + 1 := by linarith
  have hlow : n < m + 1 := by exact_mod_cast hlow
  have hhigh : m < n + 1 := by exact_mod_cast hhigh
  omega

/-- Dropped digit by digit, a coefficient comes to the whole number that it is near to. -/
theorem iterate_eq (h : Nears n (m / 10 ^ k)) (hn : n < 2 ^ 52) : dropDigit^[k] m = n := by
  obtain ⟨hdlow, hdhigh⟩ := iterate_dropDigit_bounds k m
  have hlow := h.lt hn
  obtain ⟨-, hhigh⟩ := h
  have hlow : (n : ℚ) < (dropDigit^[k] m : ℕ) + 1 := by linarith
  have hhigh : ((dropDigit^[k] m : ℕ) : ℚ) < n + 1 := by linarith
  have hlow : n < dropDigit^[k] m + 1 := by exact_mod_cast hlow
  have hhigh : dropDigit^[k] m < n + 1 := by exact_mod_cast hhigh
  omega

/-- Before the last step there is a digit more. -/
theorem lt_iterate (h : Nears n (m / 10 ^ k)) (hj : j < k) :
    (10 * n * (1 - 10 / (9 * 2 ^ 53)) - 4 / 9 : ℚ) < (dropDigit^[j] m : ℕ) := by
  obtain ⟨hdlow, -⟩ := iterate_dropDigit_bounds j m
  obtain ⟨hlow, -⟩ := h
  have hdigit : 10 * ((m : ℚ) / 10 ^ k) ≤ m / 10 ^ j := by
    have hpower : (10 : ℚ) * 10 ^ j ≤ 10 ^ k := by
      rw [← pow_succ']
      exact pow_le_pow_right₀ (by norm_num) hj
    rw [← mul_div_assoc, div_le_div_iff₀ (by positivity) (by positivity)]
    calc 10 * (m : ℚ) * 10 ^ j = m * (10 * 10 ^ j) := by ring
      _ ≤ m * 10 ^ k := by gcongr
  linarith

/-- On the way to a number that is not zero no coefficient is a single digit. -/
theorem ten_le_iterate (h : Nears n (m / 10 ^ k)) (hn : 0 < n) (hj : j < k) :
    10 ≤ dropDigit^[j] m := by
  have hlow := h.lt_iterate hj
  have hn : (1 : ℚ) ≤ n := by exact_mod_cast hn
  have hlow : (9 : ℚ) < (dropDigit^[j] m : ℕ) := by linarith
  exact_mod_cast hlow

/-- On the way to a number that is almost full every coefficient has more than 52 bits. -/
theorem le_iterate (h : Nears n (m / 10 ^ k)) (hfull : 2 ^ 52 ≤ 10 * n) (hj : j < k) :
    2 ^ 52 ≤ dropDigit^[j] m := by
  have hlow := h.lt_iterate hj
  -- No power of two ends in a zero, so there are four to spare.
  have hspare : 2 ^ 52 + 4 ≤ 10 * n := by omega
  have hspare : (2 : ℚ) ^ 52 + 4 ≤ 10 * n := by exact_mod_cast hspare
  have hlow : (2 : ℚ) ^ 52 - 1 < (dropDigit^[j] m : ℕ) := by linarith
  have hlow : (2 : ℚ) ^ 52 < (dropDigit^[j] m + 1 : ℕ) := by
    push_cast
    linarith
  have hlow : 2 ^ 52 < dropDigit^[j] m + 1 := by exact_mod_cast hlow
  omega

end Nears

/-- Digits are dropped down to the greatest scale as long as there are two of them. -/
theorem toMaxScale_eq (h : ∀ j < k, 10 ≤ dropDigit^[j] m) :
    toMaxScale (maxScale + k) m = (dropDigit^[k] m, maxScale) := by
  induction k generalizing m with
  | zero => rfl
  | succ k ih =>
    have hsome : 10 ≤ m := h 0 (by omega)
    have hstep : toMaxScale (maxScale + (k + 1)) m = toMaxScale (maxScale + k) (dropDigit m) := by
      rw [← Nat.add_assoc, toMaxScale, if_neg (by omega), if_neg (by omega)]
    rw [hstep, Function.iterate_succ_apply]
    refine ih fun j hj => ?_
    rw [← Function.iterate_succ_apply]
    exact h (j + 1) (by omega)

/-- A scale that is allowed is kept. -/
theorem toMaxScale_of_le (h : scale ≤ maxScale) : toMaxScale scale m = (m, scale) := by
  cases scale with
  | zero => rfl
  | succ scale => rw [toMaxScale, if_pos h]

/-- Digits are dropped until there is room in 52 bits. -/
theorem toDoublePrecision_eq (h : ∀ j < k, 2 ^ 52 ≤ dropDigit^[j] m)
    (hlast : dropDigit^[k] m < 2 ^ 52) :
    toDoublePrecision (places + k) m = (dropDigit^[k] m, places) := by
  induction k generalizing m with
  | zero =>
    cases places with
    | zero => rfl
    | succ places => exact if_pos hlast
  | succ k ih =>
    have hfull : 2 ^ 52 ≤ m := h 0 (by omega)
    have hstep : toDoublePrecision (places + (k + 1)) m
        = toDoublePrecision (places + k) (dropDigit m) :=
      if_neg (Nat.not_lt.2 hfull)
    rw [hstep, Function.iterate_succ_apply]
    refine ih (fun j hj => ?_) hlast
    rw [← Function.iterate_succ_apply]
    exact h (j + 1) (by omega)

/-- What the digits that are dropped leave. They leave the digits of the numeral: the first function
drops down to the greatest scale, the second one until the coefficient is short, and rounding at
each step leads to the same number. -/
theorem quotient_dropped (h : Nears n (quotient (m, scale) * 10 ^ places)) (hpos : 0 < n)
    (hn : n < 2 ^ 52) (hplaces : places ≤ maxScale) (hfull : places = maxScale ∨ 2 ^ 52 ≤ 10 * n) :
    quotient (toDoublePrecision (toMaxScale scale m).2 (toMaxScale scale m).1)
      = n / 10 ^ places := by
  rcases lt_or_ge scale places with hless | hmore
  · -- The number has fewer places than are kept, so it is whole on the grid of these.
    obtain ⟨k, rfl⟩ := Nat.exists_eq_add_of_le hless.le
    have hwhole : quotient (m, scale) * 10 ^ (scale + k) = (m * 10 ^ k : ℕ) := by
      unfold quotient
      rw [pow_add]
      push_cast
      field_simp
    have heq : m * 10 ^ k = n := (hwhole ▸ h).eq_of_natCast hn
    have hm : m < 2 ^ 52 := (Nat.le_mul_of_pos_right m (by positivity)).trans_lt (heq ▸ hn)
    rw [toMaxScale_of_le (by omega)]
    dsimp only
    have hkept : toDoublePrecision (scale + 0) m = (m, scale) :=
      toDoublePrecision_eq (k := 0) (by omega) hm
    rw [Nat.add_zero] at hkept
    rw [hkept, ← heq]
    unfold quotient
    rw [pow_add]
    push_cast
    field_simp
  · obtain ⟨k, rfl⟩ := Nat.exists_eq_add_of_le hmore
    have hnears : Nears n (m / 10 ^ k) := by
      have hvalue : quotient (m, places + k) * 10 ^ places = m / 10 ^ k := by
        unfold quotient
        rw [pow_add]
        field_simp
      exact hvalue ▸ h
    -- The two functions drop the digits together: the first does down to the greatest scale.
    obtain ⟨first, second, rfl, hfirst, hsecond⟩ : ∃ first second, k = second + first ∧
        toMaxScale (places + k) m = (dropDigit^[first] m, places + second) ∧
        (places = maxScale → second = 0) := by
      rcases le_or_gt (places + k) maxScale with hle | hgt
      · exact ⟨0, k, rfl, toMaxScale_of_le hle, by omega⟩
      · refine ⟨places + k - maxScale, maxScale - places, by omega, ?_, by omega⟩
        have hsplit : places + k = maxScale + (places + k - maxScale) := by omega
        have hmax : places + (maxScale - places) = maxScale := by omega
        rw [hmax]
        conv_lhs => rw [hsplit]
        exact toMaxScale_eq fun j hj => hnears.ten_le_iterate hpos (by omega)
    have hdropped : toDoublePrecision (places + second) (dropDigit^[first] m) = (n, places) := by
      rw [toDoublePrecision_eq, ← Function.iterate_add_apply, hnears.iterate_eq hn]
      · intro j hj
        rw [← Function.iterate_add_apply]
        rcases hfull with hmax | hfull
        · have := hsecond hmax
          omega
        · exact hnears.le_iterate hfull (by omega)
      · rw [← Function.iterate_add_apply, hnears.iterate_eq hn]
        exact hn
    rw [hfirst, hdropped]
    rfl

/-! ### Dropping zeros -/

/-- Zeros at the end count for nothing. -/
theorem quotient_dropZeros (scale m : ℕ) :
    quotient (dropZeros scale m) = quotient (m, scale) := by
  induction scale generalizing m with
  | zero => rfl
  | succ scale ih =>
    unfold dropZeros
    split
    · rename_i hzero
      have hwhole : m = 10 * (m / 10) := by omega
      have hvalue : (m : ℚ) = 10 * (m / 10 : ℕ) := by exact_mod_cast hwhole
      rw [ih]
      unfold quotient
      rw [hvalue, pow_succ', mul_div_mul_left _ _ (by norm_num)]
    · rfl

/-- No zero is left at the end of the places. -/
theorem dropZeros_reduced (scale m : ℕ) :
    (dropZeros scale m).2 = 0 ∨ (dropZeros scale m).1 % 10 ≠ 0 := by
  induction scale generalizing m with
  | zero => exact .inl rfl
  | succ scale ih =>
    unfold dropZeros
    split
    · exact ih _
    · rename_i hdigit
      exact .inr hdigit

/-! ### The strokes together -/

/-- A number with a sign. -/
def withSign (negative : Bool) (r : ℚ) : ℚ := if negative then -r else r

/-- A sign does not change the absolute value. -/
theorem abs_withSign (negative : Bool) (r : ℚ) : |withSign negative r| = |r| := by
  cases negative with
  | false => rfl
  | true => exact abs_neg r

/-- The sign of a positive number with a sign is that sign. -/
theorem withSign_neg_iff {negative : Bool} {r : ℚ} (hr : 0 < r) :
    withSign negative r < 0 ↔ negative = true := by
  cases negative with
  | false => exact iff_of_false (not_lt.2 hr.le) Bool.false_ne_true
  | true => exact iff_of_true (neg_neg_of_pos hr) rfl

/-- Two numbers are as far apart as they are with the same sign. -/
theorem abs_withSign_sub (negative : Bool) (r s : ℚ) :
    |withSign negative r - withSign negative s| = |r - s| := by
  cases negative with
  | false => rfl
  | true => exact (congrArg _ (neg_sub_neg r s)).trans (abs_sub_comm s r)

/-- The value of a decimal that is put together from a sign, a coefficient and a scale. -/
theorem value_signed (negative : Bool) (d : ℕ × ℕ) :
    value { coefficient := signed negative d.1, scale := d.2 }
      = withSign negative (quotient d) := by
  cases negative with
  | false => rfl
  | true =>
    unfold value withSign signed quotient
    rw [if_pos rfl, if_pos rfl]
    push_cast
    rw [neg_div]

/-- The value that the strokes arrive at: zeros are dropped last and do not show in it. -/
theorem normalize_value (negative : Bool) (m scale : ℕ) :
    (normalize negative m scale).value = withSign negative
      (quotient (toDoublePrecision (toMaxScale scale m).2 (toMaxScale scale m).1)) := by
  rw [← quotient_dropZeros, ← value_signed]
  rfl

/-- What the strokes arrive at has no zero at the end of its places. -/
theorem normalize_isReduced (negative : Bool) (m scale : ℕ) :
    (normalize negative m scale).IsReduced := by
  have h := dropZeros_reduced (toDoublePrecision (toMaxScale scale m).2 (toMaxScale scale m).1).2
    (toDoublePrecision (toMaxScale scale m).2 (toMaxScale scale m).1).1
  refine h.imp id fun hdigit => ?_
  change signed negative _ % 10 ≠ 0
  unfold signed
  split <;> omega

/-! ### Whole numbers -/

/-- A factor of two goes into the coefficient as long as there is room. -/
theorem timesTwos_eq (h : m * 2 ^ steps < 2 ^ 96) :
    timesTwos steps m steps = some (m * 2 ^ steps, 0) := by
  induction steps generalizing m with
  | zero => simp [timesTwos]
  | succ steps ih =>
    have hroom : m < twoTo 95 := by
      have hone : 1 ≤ 2 ^ steps := Nat.one_le_two_pow
      have hdouble : m * 2 ^ (steps + 1) = 2 * (m * 2 ^ steps) := by ring
      have hle : m ≤ m * 2 ^ steps := Nat.le_mul_of_pos_right m hone
      have htwo : twoTo 95 = 2 ^ 95 := rfl
      omega
    have hnext : m * 2 ^ (steps + 1) = 2 * m * 2 ^ steps := by ring
    rw [timesTwos, if_pos hroom, Nat.add_sub_cancel, hnext]
    exact ih (hnext ▸ h)

end Decimal

end Roster
