import Mathlib.Algebra.BigOperators.Group.List.Basic
import Mathlib.Algebra.Order.BigOperators.Group.List
import Roster.Proofs.Decimal.Dropping
import Roster.Proofs.Decimal.Returning
import Roster.Proofs.Query.Exactness

/-!
# `Roster.Proofs.Query.WholeTotals`: totals of whole numbers

A whole number that fits in 96 bits is converted to a decimal without places and with itself as the
coefficient (`ofDouble?_of_whole`), whether its double has binary places or not. If it has, its
significand is divisible by two as often as there are places, so it is halved each time and never
multiplied by five, and no digit is left to drop.

Decimals without places add up without a rounding as long as there is room. The sum of the absolute
values bounds all partial sums in all orders, so `total_of_whole` needs no more than this: the total
is the exact sum, rounded once at the end, and the order does not count.
-/

set_option autoImplicit false

namespace Roster

open Decimal

variable {xs ys : List Double} {x : Double} {i : ℤ}

/-! ### Conversion -/

/-- Twos are traded for nothing in a coefficient that is divisible by all of them. -/
theorem Decimal.overTwos_mul_pow (steps m scale : ℕ) :
    overTwos steps (m * 2 ^ steps) scale = (m, scale - steps) := by
  induction steps generalizing scale with
  | zero => rw [pow_zero, Nat.mul_one, overTwos, Nat.sub_zero]
  | succ steps ih =>
    have heven : m * 2 ^ (steps + 1) = 2 * (m * 2 ^ steps) := by ring
    rw [overTwos, if_pos (by omega), heven, Nat.mul_div_cancel_left _ two_pos, ih, Nat.sub_sub,
      Nat.add_comm 1]

/-- The decimal of an integer. -/
def Decimal.ofInt (i : ℤ) : Decimal := { coefficient := i, scale := 0 }

/-- A double that is a whole number is converted exactly. With binary places the significand ends in
as many zeros, which are halved away. -/
theorem ofDouble?_of_whole (hx : x.isFinite = true) (hi : x.value = i)
    (hroom : i.natAbs < 2 ^ 96) : ofDouble? x = some (.ofInt i) := by
  have habs : (i.natAbs : ℚ) = x.significand * 2 ^ x.exponent := by
    rw [← Double.abs_value, hi, Nat.cast_natAbs, Int.cast_abs]
  have hsigned : signed x.negative i.natAbs = i := by
    have hcast : (signed x.negative i.natAbs : ℚ) = i := by
      rw [cast_signed, habs, ← hi]
      rfl
    exact_mod_cast hcast
  unfold ofDouble?
  rw [hx, Bool.not_true, if_neg Bool.false_ne_true]
  cases hzero : x.isZero with
  | true =>
    have hnone : i = 0 := by exact_mod_cast hi.symm.trans (Double.value_eq_zero hzero)
    rw [if_pos rfl, hnone]
    rfl
  | false =>
    rw [if_neg Bool.false_ne_true]
    split_ifs with hexponent
    · -- A whole number leaves only zeros in the binary places.
      obtain ⟨steps, hsteps⟩ : ∃ steps : ℕ, x.exponent = -steps :=
        ⟨(-x.exponent).toNat, by omega⟩
      have hdivisible : x.significand = i.natAbs * 2 ^ steps := by
        rw [hsteps, zpow_neg, zpow_natCast] at habs
        have hwhole : (x.significand : ℚ) = i.natAbs * 2 ^ steps := by
          rw [habs, inv_mul_cancel_right₀ (by positivity)]
        exact_mod_cast hwhole
      rw [hsteps, neg_neg, Int.toNat_natCast, hdivisible]
      dsimp only
      rw [overTwos_mul_pow, Nat.sub_self]
      exact congrArg (some ∘ ofInt) hsigned
    · obtain ⟨twos, htwos⟩ := Int.eq_ofNat_of_zero_le (not_lt.1 hexponent)
      have hproduct : x.significand * 2 ^ twos = i.natAbs := by
        rw [htwos, zpow_natCast] at habs
        exact_mod_cast habs.symm
      rw [htwos, Int.toNat_natCast]
      dsimp only
      rw [timesTwos_eq (hproduct ▸ hroom), hproduct]
      exact congrArg (some ∘ ofInt) hsigned

/-! ### Sums -/

/-- The exact sum of doubles. -/
def exactSum (xs : List Double) : ℚ := (xs.map Double.value).sum

/-- The sum of the absolute values of doubles. -/
def absSum (xs : List Double) : ℚ := (xs.map fun x => |x.value|).sum

/-- The last number of a sum is added last. -/
theorem exactSum_append_singleton (xs : List Double) (x : Double) :
    exactSum (xs ++ [x]) = exactSum xs + x.value := by
  simp [exactSum]

/-- The same for absolute values. -/
theorem absSum_append_singleton (xs : List Double) (x : Double) :
    absSum (xs ++ [x]) = absSum xs + |x.value| := by
  simp [absSum]

/-- The exact sum does not depend on the order. -/
theorem exactSum_perm (h : ys.Perm xs) : exactSum ys = exactSum xs :=
  (h.map Double.value).sum_eq

/-- Nor does the sum of the absolute values. -/
theorem absSum_perm (h : ys.Perm xs) : absSum ys = absSum xs := by
  unfold absSum
  exact (h.map _).sum_eq

/-- A sum of absolute values is not negative. -/
theorem absSum_nonneg (xs : List Double) : 0 ≤ absSum xs :=
  List.sum_nonneg fun r hr => by
    obtain ⟨x, -, rfl⟩ := List.mem_map.1 hr
    exact abs_nonneg _

/-- The exact sum is no greater than the sum of the absolute values. -/
theorem abs_exactSum_le (xs : List Double) : |exactSum xs| ≤ absSum xs := by
  induction xs using List.reverseRecOn with
  | nil => simp [exactSum, absSum]
  | append_singleton xs x ih =>
    rw [exactSum_append_singleton, absSum_append_singleton]
    exact (abs_add_le _ _).trans (add_le_add_left ih _)

/-- Whole numbers add up exactly if there is room for the sum of their absolute values. Each partial
sum is at most that, so none of them is rounded. -/
theorem exists_decimalSum_of_whole (hfinite : ∀ x ∈ xs, x.isFinite = true)
    (hwhole : ∀ x ∈ xs, ∃ i : ℤ, x.value = i) (hroom : absSum xs < 2 ^ 96) :
    ∃ sum : ℤ, decimalSum xs = some (.ofInt sum) ∧ exactSum xs = sum := by
  induction xs using List.reverseRecOn with
  | nil => exact ⟨0, rfl, rfl⟩
  | append_singleton xs x ih =>
    have hsum := abs_exactSum_le (xs ++ [x])
    rw [exactSum_append_singleton] at hsum
    -- Every partial sum is a sum of some of the absolute values at most.
    have hfit {i : ℤ} (h : |(i : ℚ)| ≤ absSum (xs ++ [x])) : i.natAbs < 2 ^ 96 := by
      have hlt := h.trans_lt hroom
      rw [← Int.cast_abs, Int.abs_eq_natAbs] at hlt
      exact_mod_cast hlt
    have hparts := absSum_append_singleton xs x
    obtain ⟨sum, hdecimal, hexact⟩ := ih (fun y hy => hfinite y (List.mem_append_left _ hy))
      (fun y hy => hwhole y (List.mem_append_left _ hy))
      (by linarith [abs_nonneg x.value])
    have hx : x ∈ xs ++ [x] := by simp
    obtain ⟨i, hi⟩ := hwhole x hx
    refine ⟨sum + i, ?_, ?_⟩
    · have hconverted := ofDouble?_of_whole (hfinite x hx) hi
        (hfit (by rw [← hi]; linarith [absSum_nonneg xs]))
      rw [decimalSum_append_singleton, hdecimal, hconverted, Option.bind_some, Option.bind_some]
      refine add?_of_same_scale 0 (hfit ?_)
      rwa [Int.cast_add, ← hexact, ← hi]
    · rw [exactSum_append_singleton, hexact, hi, Int.cast_add]

/-- A total with a sum in decimals is the double of that sum. -/
theorem total_eq {d : Decimal} (h : decimalSum xs = some d) : total xs = d.toDouble := by
  rw [total, h]

/-- Whole numbers, of whatever size each, whose absolute values add up to less than `2 ^ 96` have
their exact sum as a sum in decimals. Their total is the double nearest to it, which is the sum
itself up to 53 bits, and it is the same in every order. -/
theorem total_of_whole (xs : List Double) (hfinite : ∀ x ∈ xs, x.isFinite = true)
    (hwhole : ∀ x ∈ xs, ∃ i : ℤ, x.value = i) (hroom : absSum xs < 2 ^ 96) :
    ∃ sum : ℤ, exactSum xs = sum ∧ decimalSum xs = some (.ofInt sum) ∧
      (total xs).IsNearest sum ∧ (|sum| ≤ 2 ^ 53 → (total xs).value = sum) ∧
      ∀ ys, ys.Perm xs → decimalSum ys = decimalSum xs ∧ total ys = total xs := by
  obtain ⟨sum, hdecimal, hexact⟩ := exists_decimalSum_of_whole hfinite hwhole hroom
  have hsize : |(sum : ℚ)| < 2 ^ 96 := hexact ▸ (abs_exactSum_le xs).trans_lt hroom
  have hrange : Double.InRange (sum : ℚ) := inRange_of_abs_le (hsize.le.trans (by norm_num))
  -- The sum in decimals is exact, and only turning it into a double rounds.
  have hnearest : (total xs).IsNearest sum :=
    total_eq hdecimal ▸ toDouble_isNearest_of_whole (d := ofInt sum) rfl hrange
  refine ⟨sum, hexact, hdecimal, hnearest, fun hsmall => ?_, fun ys hperm => ?_⟩
  · obtain ⟨y, hy, hvalue⟩ := Double.exists_value_eq_intCast hsmall
    rw [← hvalue] at hnearest ⊢
    exact hnearest.value_eq hy
  · -- The exact sum does not depend on the order, and the sum in decimals is the exact one.
    obtain ⟨sum', hdecimal', hexact'⟩ := exists_decimalSum_of_whole
      (fun y hy => hfinite y (hperm.mem_iff.1 hy)) (fun y hy => hwhole y (hperm.mem_iff.1 hy))
      (absSum_perm hperm ▸ hroom)
    have heq : sum' = sum := by
      rw [exactSum_perm hperm, hexact] at hexact'
      exact_mod_cast hexact'.symm
    rw [heq] at hdecimal'
    exact ⟨hdecimal'.trans hdecimal.symm, (total_eq hdecimal').trans (total_eq hdecimal).symm⟩

/-- Two ones count next to `2 ^ 53`, in whatever order they are added, while a sum of doubles loses
both of them. -/
theorem total_of_whole_carries :
    let great : Double := { negative := false, magnitude := 0x4340000000000000 }
    let one : Double := { negative := false, magnitude := 0x3FF0000000000000 }
    decimalSum [great, one, one] = some { coefficient := 2 ^ 53 + 2, scale := 0 } ∧
      (total [great, one, one]).IsNearest (2 ^ 53 + 2) ∧
      total [one, great, one] = total [great, one, one] ∧
      (doubleSum [great, one, one]).value = 2 ^ 53 := by
  intro great one
  have hgreat : great.value = 2 ^ 53 := by
    rw [Double.value_of_parts (m := 2 ^ 52) (e := 1) rfl (by decide) (by decide)]
    norm_num
  have hone : one.value = 1 := by
    rw [Double.value_of_parts (m := 2 ^ 52) (e := -52) rfl (by decide) (by decide)]
    norm_num
  have hwhole : ∀ x ∈ [great, one, one], ∃ i : ℤ, x.value = i := by
    simp only [List.forall_mem_cons, hgreat, hone]
    exact ⟨⟨2 ^ 53, by norm_num⟩, ⟨1, by norm_num⟩, ⟨1, by norm_num⟩, nofun⟩
  have hroom : absSum [great, one, one] < 2 ^ 96 := by
    norm_num [absSum, hgreat, hone]
  obtain ⟨sum, hexact, hdecimal, hnearest, -, horder⟩ :=
    total_of_whole [great, one, one] (by decide) hwhole hroom
  have hsum : sum = 2 ^ 53 + 2 := by
    have hcast : (sum : ℚ) = 2 ^ 53 + 2 := by
      rw [← hexact]
      norm_num [exactSum, hgreat, hone]
    exact_mod_cast hcast
  rw [hsum] at hdecimal hnearest
  -- In doubles each one is half a unit of the last place, and is rounded away.
  have hdoubles : doubleSum [great, one, one] = great := by decide +kernel
  refine ⟨hdecimal, by exact_mod_cast hnearest, (horder _ (.swap _ _ _)).2, ?_⟩
  rw [hdoubles, hgreat]

end Roster
