import Roster.Proofs.Decimal.Approximating
import Roster.Proofs.Decimal.Dividing
import Roster.Proofs.Query.WholeTotals
import Roster.Report.Document

/-!
# `Roster.Proofs.Query.Averages`: where a mean lies

A mean need not lie between the least and the greatest of its numbers. Taken in decimals it has gone
through a conversion, a sum, a division and a conversion back, and each of them rounds; taken in
doubles it has a sum that may be infinite, although no number is great enough for the mean to be
(`mean_not_between`).

What can be said is how far it is from the exact mean. `abs_decimalSum_sub_le` and
`abs_doubleSum_sub_le` follow the two sums from number to number: the error grows by the same amount
at each step, since the partial sums are bounded by the count (`abs_add?_sub_le_of_near`,
`abs_add_sub_le_of_near`). Together with the estimates of the other operations this bounds the error
of the mean by `meanError` (`abs_mean_sub_le`), as long as doubles have room for the sum.

The main result, `mean_between`, is what follows from it. The exact mean is at least the count-th
part of the spread away from both ends, so a spread of some errors keeps the mean between them. If
there is no spread at all, all numbers are equal and no estimate helps. But then they convert to the
same decimal, their sum is a multiple of it, the division gives it back, and only the two
conversions count: `mean_of_same`. `Double.ComesBack` names numbers that survive both.
-/

set_option autoImplicit false

namespace Roster

open Decimal

variable {tie : Tie} {xs : List Double} {x y : Double} {d : Decimal} {most : ℚ}

/-! ### Exact sums -/

/-- If one of the numbers is known, the others bound the sum from below and from above. -/
theorem exactSum_bounds {low high : ℚ} (hx : x ∈ xs)
    (hbounds : ∀ y ∈ xs, low ≤ y.value ∧ y.value ≤ high) :
    xs.length * low + (x.value - low) ≤ exactSum xs ∧
      exactSum xs ≤ xs.length * high - (high - x.value) := by
  have hvalue : x.value ∈ xs.map Double.value := List.mem_map_of_mem hx
  have hrest : ∀ r ∈ (xs.map Double.value).erase x.value, low ≤ r ∧ r ≤ high := fun r hr =>
    (List.forall_mem_map (P := fun r => low ≤ r ∧ r ≤ high)).2 hbounds r (List.mem_of_mem_erase hr)
  have hlow := List.card_nsmul_le_sum _ low fun r hr => (hrest r hr).1
  have hhigh := List.sum_le_card_nsmul _ high fun r hr => (hrest r hr).2
  have hlength : (((xs.map Double.value).erase x.value).length : ℚ) = xs.length - 1 := by
    rw [List.length_erase_of_mem hvalue, List.length_map, Nat.cast_pred (List.length_pos_of_mem hx)]
  rw [nsmul_eq_mul, hlength] at hlow hhigh
  rw [exactSum, ← List.sum_erase hvalue]
  constructor <;> linarith

/-- A sum of numbers of limited size. -/
theorem abs_exactSum_le_mul (hmost : ∀ x ∈ xs, |x.value| ≤ most) :
    |exactSum xs| ≤ xs.length * most := by
  induction xs using List.reverseRecOn with
  | nil => simp [exactSum]
  | append_singleton xs x ih =>
    obtain ⟨hxs, hx⟩ := List.forall_mem_append.1 hmost
    rw [exactSum_append_singleton, List.length_append, List.length_singleton, Nat.cast_succ,
      add_mul, one_mul]
    exact (abs_add_le _ _).trans (add_le_add (ih hxs) (hx x (List.mem_singleton_self x)))

/-! ### Sums in decimals -/

/-- The error that a number adds to a sum in decimals. -/
def decimalError (most : ℚ) : ℚ := most / 2 ^ 48 + 3 / 10 ^ 28

/-- What a step of a sum in decimals does to the error: it grows by one `decimalError`, and the sum
that is rounded is not much greater than the numbers allow. -/
theorem abs_add?_sub_le_of_near {k : ℕ} {total : Decimal} {exact : ℚ} (hmost : 0 ≤ most)
    (hk : k + 1 ≤ 2 ^ 40) (htotal : total.Fits) (hexact : |exact| ≤ k * most)
    (hnear : |total.value - exact| ≤ k * decimalError most) (hx : |x.value| ≤ most)
    (hd : ofDouble? x = some d) :
    |total.value + d.value| ≤ (k + 1) * (most + decimalError most) ∧
      ∀ sum, total.add? d = some sum → sum.Fits ∧
        |sum.value - (exact + x.value)| ≤ (k + 1) * decimalError most := by
  obtain ⟨hfits, hconverted⟩ := abs_ofDouble?_sub_le hd
  have herror : decimalError most = most / 2 ^ 48 + 3 / 10 ^ 28 := rfl
  have hoperands : |total.value + d.value - (exact + x.value)|
      ≤ k * decimalError most + (most / 2 ^ 49 + 2 / 10 ^ 28) := by
    rw [add_sub_add_comm]
    exact (abs_add_le _ _).trans (add_le_add hnear (by linarith))
  have hgreat : |total.value + d.value| ≤ (k + 1) * (most + decimalError most) := by
    have hsum := abs_add_le exact x.value
    have htriangle := abs_sub_abs_le_abs_sub (total.value + d.value) (exact + x.value)
    linarith
  refine ⟨hgreat, fun sum hsum => ?_⟩
  obtain ⟨hsumFits, hrounded⟩ := abs_add?_sub_le htotal hfits hsum
  refine ⟨hsumFits, ?_⟩
  -- The rounding costs a part of the sum, and the count is too small for that part to add up.
  have hk' : (k + 1 : ℚ) ≤ 2 ^ 40 := by exact_mod_cast hk
  have hpositive : 0 ≤ most + decimalError most := by
    rw [herror]
    positivity
  have hmany := mul_le_mul_of_nonneg_right hk' hpositive
  have htriangle := abs_sub_le sum.value (total.value + d.value) (exact + x.value)
  linarith

/-- A sum in decimals is off by at most one `decimalError` for each number, and it fits. -/
theorem abs_decimalSum_sub_le (hmost : ∀ x ∈ xs, |x.value| ≤ most) (hpositive : 0 ≤ most)
    (hcount : xs.length ≤ 2 ^ 40) (h : decimalSum xs = some d) :
    d.Fits ∧ |d.value - exactSum xs| ≤ xs.length * decimalError most := by
  induction xs using List.reverseRecOn generalizing d with
  | nil =>
    cases h
    exact ⟨by decide, by simp [exactSum]⟩
  | append_singleton xs x ih =>
    obtain ⟨hxs, hx⟩ := List.forall_mem_append.1 hmost
    rw [List.length_append, List.length_singleton] at hcount ⊢
    rw [decimalSum_append_singleton] at h
    obtain ⟨total, htotal, h⟩ := Option.bind_eq_some_iff.1 h
    obtain ⟨converted, hconverted, h⟩ := Option.bind_eq_some_iff.1 h
    obtain ⟨hfits, hnear⟩ := ih hxs (by omega) htotal
    rw [exactSum_append_singleton, Nat.cast_succ]
    exact (abs_add?_sub_le_of_near hpositive hcount hfits (abs_exactSum_le_mul hxs) hnear
      (hx x (List.mem_singleton_self x)) hconverted).2 d h

/-- Numbers that cannot add up to more than `2 ^ 95` have a sum in decimals. The induction adds one
number at the end, and carries nothing else: that the sum is near the exact one is known from
`abs_decimalSum_sub_le`. -/
theorem exists_decimalSum_of_lt (hfinite : ∀ x ∈ xs, x.isFinite = true)
    (hmost : ∀ x ∈ xs, |x.value| ≤ most) (hpositive : 0 ≤ most) (hcount : xs.length ≤ 2 ^ 40)
    (hroom : xs.length * most < 2 ^ 95) : ∃ d, decimalSum xs = some d := by
  induction xs using List.reverseRecOn with
  | nil => exact ⟨zero, rfl⟩
  | append_singleton xs x ih =>
    obtain ⟨hxs, hx⟩ := List.forall_mem_append.1 hmost
    obtain ⟨hxsFinite, hxFinite⟩ := List.forall_mem_append.1 hfinite
    have hx := hx x (List.mem_singleton_self x)
    rw [List.length_append, List.length_singleton] at hcount hroom
    rw [Nat.cast_succ] at hroom
    have hparts : (0 : ℚ) ≤ xs.length * most := mul_nonneg (Nat.cast_nonneg _) hpositive
    -- The sum so far is near the exact one, so there is still room for one number more.
    obtain ⟨total, htotal⟩ := ih hxsFinite hxs (by omega) (by linarith)
    obtain ⟨converted, hconverted⟩ :=
      exists_ofDouble?_of_lt (hxFinite x (List.mem_singleton_self x)) (by linarith)
    obtain ⟨hfits, hnear⟩ := abs_decimalSum_sub_le hxs hpositive (by omega) htotal
    have hgreat := (abs_add?_sub_le_of_near hpositive hcount hfits (abs_exactSum_le_mul hxs) hnear
      hx hconverted).1
    have hk : (xs.length + 1 : ℚ) ≤ 2 ^ 40 := by exact_mod_cast hcount
    rw [decimalError] at hgreat
    rw [decimalSum_append_singleton, htotal, hconverted, Option.bind_some, Option.bind_some]
    exact exists_add?_of_le (by linarith)

/-! ### Means in decimals -/

/-- What is known of a sum is known of the mean. -/
theorem abs_div_length_sub_le {n : ℕ} {a b error : ℚ} (hn : 0 < n) (h : |a - b| ≤ n * error) :
    |a / n - b / n| ≤ error := by
  have hn : (0 : ℚ) < n := by exact_mod_cast hn
  rw [← sub_div, abs_div, abs_of_pos hn, div_le_iff₀ hn]
  linarith

/-- The exact mean is no greater than the numbers. -/
theorem abs_exactSum_div_le (hne : xs ≠ []) (hmost : ∀ x ∈ xs, |x.value| ≤ most) :
    |exactSum xs / xs.length| ≤ most := by
  have hn : (0 : ℚ) < xs.length := by exact_mod_cast List.length_pos_of_ne_nil hne
  rw [abs_div, abs_of_pos hn, div_le_iff₀ hn, mul_comm]
  exact abs_exactSum_le_mul hmost

/-- The mean of numbers that have a sum in decimals. -/
theorem abs_mean_sub_le_of_decimal (hne : xs ≠ []) (hmost : ∀ x ∈ xs, |x.value| ≤ most)
    (hpositive : 0 ≤ most) (hcount : xs.length ≤ 2 ^ 40) (h : decimalSum xs = some d) :
    (mean xs).isFinite = true ∧
      |(mean xs).value - exactSum xs / xs.length| ≤ most / 2 ^ 46 + 1 / 10 ^ 27 := by
  have hlength : 0 < xs.length := List.length_pos_of_ne_nil hne
  obtain ⟨hfits, hsum⟩ := abs_decimalSum_sub_le hmost hpositive hcount h
  obtain ⟨hquotientFits, hquotient⟩ := abs_divide_sub_le hfits hlength
  obtain ⟨hfinite, hreturned⟩ := abs_toDouble_sub_le hquotientFits
  have hmean : mean xs = (d.divide xs.length).toDouble := by rw [mean, h]
  rw [← hmean] at hfinite hreturned
  refine ⟨hfinite, ?_⟩
  have hsum := abs_div_length_sub_le hlength hsum
  have hexact := abs_exactSum_div_le hne hmost
  generalize (d.divide xs.length).value = q at hquotient hreturned
  generalize d.value / xs.length = s at hquotient hsum
  generalize exactSum xs / xs.length = μ at hsum hexact ⊢
  have herror : decimalError most = most / 2 ^ 48 + 3 / 10 ^ 28 := rfl
  -- The two later errors count in parts of what they are made on, which the earlier ones bound.
  have hs := abs_sub_abs_le_abs_sub s μ
  have hq := abs_sub_abs_le_abs_sub q s
  have hfirst := abs_sub_le (mean xs).value q μ
  have hsecond := abs_sub_le q s μ
  linarith

/-! ### Sums and means in doubles -/

/-- What a step of a sum in doubles does to the error: it grows by the same part of the bound. -/
theorem abs_add_sub_le_of_near {k : ℕ} {total : Double} {exact bound : ℚ}
    (htotal : total.isFinite = true) (hx : x.isFinite = true)
    (hnear : |total.value - exact| ≤ k * (bound / 2 ^ 53))
    (hrange : |total.value + x.value| ≤ bound) (hnormal : 2 ^ (-1022 : ℤ) ≤ bound)
    (hbound : bound < 2 ^ (1023 : ℤ)) :
    (total.add x).isFinite = true ∧
      |(total.add x).value - (exact + x.value)| ≤ (k + 1) * (bound / 2 ^ 53) := by
  have hnearest := Double.add_isNearest htotal hx (.of_le hrange hbound)
  have hrounded := hnearest.abs_sub_le_of_le hrange hnormal hbound
  have hparts : |total.value + x.value - (exact + x.value)| = |total.value - exact| := by
    rw [add_sub_add_right_eq_sub]
  have hsplit := abs_sub_le (total.add x).value (total.value + x.value) (exact + x.value)
  exact ⟨hnearest.finite, by linarith⟩

/-- A sum in doubles is off by at most a part of twice the greatest possible sum for each number.
Every partial sum stays within the bound, so each of the additions is rounded by at most the same
amount. -/
theorem abs_doubleSum_sub_le {bound : ℚ} (hfinite : ∀ x ∈ xs, x.isFinite = true)
    (hmost : ∀ x ∈ xs, |x.value| ≤ most) (hpositive : 0 ≤ most) (hcount : xs.length ≤ 2 ^ 40)
    (hroom : 2 * (xs.length * most) ≤ bound) (hnormal : 2 ^ (-1022 : ℤ) ≤ bound)
    (hbound : bound < 2 ^ (1023 : ℤ)) : (doubleSum xs).isFinite = true ∧
      |(doubleSum xs).value - exactSum xs| ≤ xs.length * (bound / 2 ^ 53) := by
  induction xs using List.reverseRecOn with
  | nil =>
    refine ⟨rfl, ?_⟩
    have hzero : (doubleSum []).value = 0 := Double.value_eq_zero rfl
    rw [hzero]
    simp [exactSum]
  | append_singleton xs x ih =>
    obtain ⟨hxs, hx⟩ := List.forall_mem_append.1 hmost
    obtain ⟨hxsFinite, hxFinite⟩ := List.forall_mem_append.1 hfinite
    have hlast : x ∈ [x] := List.mem_singleton_self x
    have hx := hx x hlast
    rw [List.length_append, List.length_singleton] at hcount hroom ⊢
    rw [Nat.cast_succ] at hroom ⊢
    have hpart : 0 ≤ bound / 2 ^ 53 := by
      have hbound : 0 ≤ bound := le_trans (by positivity) hnormal
      positivity
    obtain ⟨hsumFinite, hsum⟩ := ih hxsFinite hxs (by omega) (by linarith)
    have hk : (xs.length : ℚ) ≤ 2 ^ 40 := by
      have hk : xs.length ≤ 2 ^ 40 := by omega
      exact_mod_cast hk
    have hmany := mul_le_mul_of_nonneg_right hk hpart
    have hexact := abs_exactSum_le_mul hxs
    have htriangle := abs_sub_abs_le_abs_sub (doubleSum xs).value (exactSum xs)
    -- The sum so far is off by a small part of the bound, so one number more stays within it.
    have hrange : |(doubleSum xs).value + x.value| ≤ bound := by
      refine (abs_add_le _ _).trans ?_
      linarith
    -- Adding the last number loses half a unit of the bound, as each one before it did.
    have hstep : doubleSum (xs ++ [x]) = (doubleSum xs).add x := by
      simp [doubleSum]
    rw [hstep, exactSum_append_singleton]
    exact abs_add_sub_le_of_near hsumFinite (hxFinite x hlast) hsum hrange hnormal hbound

/-- The mean of numbers that have no sum in decimals. The error is that of the sum, divided by the
count, and one more rounding. -/
theorem abs_mean_sub_le_of_double (hne : xs ≠ []) (hfinite : ∀ x ∈ xs, x.isFinite = true)
    (hmost : ∀ x ∈ xs, |x.value| ≤ most) (hcount : xs.length ≤ 2 ^ 40) (hgreat : 1 ≤ most)
    (hroom : xs.length * most < 2 ^ (1022 : ℤ)) (h : decimalSum xs = none) :
    (mean xs).isFinite = true ∧
      |(mean xs).value - exactSum xs / xs.length| ≤ xs.length * most / 2 ^ 51 := by
  have hlength : 0 < xs.length := List.length_pos_of_ne_nil hne
  have hlength' : (1 : ℚ) ≤ xs.length := by exact_mod_cast hlength
  have hmany : (xs.length : ℚ) ≤ 2 ^ 40 := by exact_mod_cast hcount
  have hpositive : 0 ≤ most := zero_le_one.trans hgreat
  have hone : most ≤ xs.length * most := le_mul_of_one_le_left hpositive hlength'
  have hmore := mul_le_mul_of_nonneg_right hmany hpositive
  have hnormal : (2 : ℚ) ^ (-1022 : ℤ) ≤ 1 := zpow_le_one_of_nonpos₀ (by norm_num) (by decide)
  have hdouble : 2 * (xs.length * most) < 2 ^ (1023 : ℤ) := by
    have hexponent : (1023 : ℤ) = 1 + 1022 := rfl
    rw [hexponent, zpow_one_add₀ two_ne_zero]
    exact mul_lt_mul_of_pos_left hroom two_pos
  obtain ⟨hsumFinite, hsum⟩ := abs_doubleSum_sub_le hfinite hmost hpositive hcount le_rfl
    (hnormal.trans (by linarith)) hdouble
  obtain ⟨hcountFinite, hcountValue⟩ := Double.value_ofNat (n := xs.length) (by omega)
  have hzero : (Double.ofNat xs.length).isZero = false :=
    Double.isZero_eq_false (by rw [hcountValue]; positivity)
  -- With no sum in decimals the mean is the sum in doubles divided by the count.
  have hmean : mean xs = (doubleSum xs).div (Double.ofNat xs.length) := by rw [mean, h]
  have hsum := abs_div_length_sub_le hlength hsum
  have hexact := abs_exactSum_div_le hne hmost
  have hs := abs_sub_abs_le_abs_sub ((doubleSum xs).value / xs.length) (exactSum xs / xs.length)
  have hquotient : |(doubleSum xs).value / (Double.ofNat xs.length).value| ≤ 2 * most := by
    rw [hcountValue]
    linarith
  have hbound : 2 * most < 2 ^ (1023 : ℤ) := lt_of_le_of_lt (by linarith) hdouble
  -- The quotient is rounded once more.
  have hnearest := Double.div_isNearest hsumFinite hcountFinite hzero (.of_le hquotient hbound)
  have hrounded := hnearest.abs_sub_le_of_le hquotient (hnormal.trans (by linarith)) hbound
  rw [hmean]
  rw [hcountValue] at hrounded
  refine ⟨hnearest.finite, (abs_sub_le _ _ _).trans ((add_le_add hrounded hsum).trans ?_)⟩
  linarith

/-! ### Means -/

/-- How far the mean of so many numbers up to a bound is from the exact mean at most. The last part
counts only where decimals may have no room for the sum. -/
def meanError (count : ℕ) (most : ℚ) : ℚ :=
  most / 2 ^ 46 + 1 / 10 ^ 27 + if count * most < 2 ^ 95 then 0 else count * most / 2 ^ 51

/-- A mean is finite, and off by at most `meanError`, if doubles have room for the sum. Which of the
two ways is taken depends on whether there is a sum in decimals, and there is one unless the numbers
are great. -/
theorem abs_mean_sub_le (hne : xs ≠ []) (hfinite : ∀ x ∈ xs, x.isFinite = true)
    (hmost : ∀ x ∈ xs, |x.value| ≤ most) (hcount : xs.length ≤ 2 ^ 40)
    (hroom : xs.length * most < 2 ^ (1022 : ℤ)) : (mean xs).isFinite = true ∧
      |(mean xs).value - exactSum xs / xs.length| ≤ meanError xs.length most := by
  have hpositive : 0 ≤ most := by
    obtain ⟨x, hx⟩ := List.exists_mem_of_ne_nil xs hne
    exact (abs_nonneg _).trans (hmost x hx)
  have hparts : (0 : ℚ) ≤ xs.length * most / 2 ^ 51 :=
    div_nonneg (mul_nonneg (Nat.cast_nonneg _) hpositive) (by norm_num)
  unfold meanError
  cases h : decimalSum xs with
  | some d =>
    obtain ⟨hmean, hnear⟩ := abs_mean_sub_le_of_decimal hne hmost hpositive hcount h
    refine ⟨hmean, hnear.trans (le_add_of_nonneg_right ?_)⟩
    split_ifs
    · exact le_rfl
    · exact hparts
  | none =>
    have hgreat : ¬(xs.length : ℚ) * most < 2 ^ 95 := fun hlt => by
      obtain ⟨d, hd⟩ := exists_decimalSum_of_lt hfinite hmost hpositive hcount hlt
      rw [h] at hd
      cases hd
    -- The numbers are great, so the least unit of doubles does not count.
    have hone : 1 ≤ most := by
      have hmany : (xs.length : ℚ) ≤ 2 ^ 40 := by exact_mod_cast hcount
      have hmore := mul_le_mul_of_nonneg_right hmany hpositive
      linarith
    obtain ⟨hmean, hnear⟩ := abs_mean_sub_le_of_double hne hfinite hmost hcount hone hroom h
    rw [if_neg hgreat]
    have hdecimal : 0 ≤ most / 2 ^ 46 + 1 / 10 ^ 27 := by linarith
    exact ⟨hmean, hnear.trans (le_add_of_nonneg_left hdecimal)⟩

/-! ### Equal values -/

/-- Doubles that convert to the same decimal add up to a multiple of it. -/
theorem decimalSum_of_same (hne : xs ≠ []) (h : ∀ x ∈ xs, ofDouble? x = some d)
    (hroom : xs.length * d.coefficient.natAbs < limit) :
    decimalSum xs = some { coefficient := xs.length * d.coefficient, scale := d.scale } := by
  induction xs using List.reverseRecOn with
  | nil => exact absurd rfl hne
  | append_singleton xs x ih =>
    obtain ⟨hxs, hx⟩ := List.forall_mem_append.1 h
    rw [decimalSum_append_singleton, hx x (List.mem_singleton_self x)]
    rw [List.length_append, List.length_singleton] at hroom ⊢
    rw [Nat.cast_succ, add_mul, one_mul]
    rcases eq_or_ne xs [] with rfl | hsome
    · simp [decimalSum, add?, zero]
    · have hmultiple : (xs.length * d.coefficient + d.coefficient).natAbs < limit := by
        rw [← add_one_mul, Int.natAbs_mul]
        exact hroom
      rw [ih hsome hxs (by linarith [Nat.zero_le d.coefficient.natAbs]), Option.bind_some,
        Option.bind_some]
      exact add?_of_same_scale d.scale hmultiple

/-- The mean of doubles that convert to the same decimal is what this decimal becomes. -/
theorem mean_of_same (hne : xs ≠ []) (h : ∀ x ∈ xs, ofDouble? x = some d)
    (hroom : xs.length * d.coefficient.natAbs < limit)
    (hd : d.coefficient ≠ 0 ∨ d.scale = 0) : mean xs = d.toDouble := by
  rw [mean, decimalSum_of_same hne h hroom]
  dsimp only
  rw [divide_mul (List.length_pos_of_ne_nil hne) hd]

/-- Whether a double comes back from its decimal after so many of it are added up: a whole number
for whose multiple there is room, or one that is converted to its shortest numeral, if this has few
digits and places. -/
inductive Double.ComesBack (tie : Tie) (count : ℕ) (x : Double) : Prop
  | whole (i : ℤ) (hvalue : x.value = i) (hroom : count * i.natAbs < limit)
  | digits (n places : ℕ) (hrecoverable : x.Recoverable tie) (hplaces : places ≤ 22)
      (hn : n < 2 ^ 50) (hnumeral : x.absNumeral tie = n / 10 ^ places)

/-- The decimal of a double depends only on its value. -/
theorem ofDouble?_eq_of_value_eq (hx : x.isFinite = true) (hy : y.isFinite = true)
    (h : x.value = y.value) : ofDouble? x = ofDouble? y := by
  cases hzero : x.isZero with
  | true =>
    have hzero' : y.isZero = true := by
      by_contra hne
      exact Double.value_ne_zero (Bool.eq_false_iff.2 hne) (h ▸ Double.value_eq_zero hzero)
    have hzeros {z : Double} (hz : z.isFinite = true) (hnone : z.isZero = true) :
        ofDouble? z = some zero := by
      unfold ofDouble?
      rw [hz, hnone, Bool.not_true, if_neg Bool.false_ne_true, if_pos rfl]
    rw [hzeros hx hzero, hzeros hy hzero']
  | false => rw [Double.eq_of_value_eq hx hy hzero h]

/-- A double that is a whole number comes back. -/
theorem exists_ofDouble?_of_whole {count : ℕ} {i : ℤ} (hx : x.isFinite = true) (hcount : 0 < count)
    (hvalue : x.value = i) (hroom : count * i.natAbs < limit) :
    ∃ d, ofDouble? x = some d ∧ d.toDouble.value = x.value ∧
      (d.coefficient ≠ 0 ∨ d.scale = 0) ∧ count * d.coefficient.natAbs < limit := by
  have hi : i.natAbs < 2 ^ 96 := (Nat.le_mul_of_pos_left _ hcount).trans_lt hroom
  have hrange : Double.InRange (i : ℚ) := by
    have hi : (i.natAbs : ℚ) ≤ 2 ^ 96 := by exact_mod_cast hi.le
    rw [Nat.cast_natAbs, Int.cast_abs] at hi
    exact inRange_of_abs_le (hi.trans (by norm_num))
  have hnearest := toDouble_isNearest_of_whole (d := ofInt i) rfl hrange
  refine ⟨ofInt i, ofDouble?_of_whole hx hvalue hi, ?_, .inr rfl, hroom⟩
  rw [show ((ofInt i).coefficient : ℚ) = x.value from hvalue.symm] at hnearest
  exact hnearest.value_eq hx

/-- A double that is converted to a short numeral comes back. -/
theorem exists_ofDouble?_of_digits {n places : ℕ} (hx : x.isFinite = true)
    (hzero : x.isZero = false) (hrecoverable : x.Recoverable tie) (hplaces : places ≤ 22)
    (hn : n < 2 ^ 50) (hnumeral : x.absNumeral tie = n / 10 ^ places) :
    ∃ d, ofDouble? x = some d ∧ d.toDouble = x ∧ d.coefficient ≠ 0 ∧
      d.coefficient.natAbs < 2 ^ 50 := by
  obtain ⟨d, hd, hvalue, hreduced⟩ := hrecoverable.exists_ofDouble? hx
  have hpos := Double.significand_pos hzero
  -- The shortest numeral lies in the interval of the double, so it is read back as the double.
  have hcovers : x.Covers (n / 10 ^ places) := by
    have h := Double.covers_shortest tie hx hpos
    unfold Double.absNumeral at hnumeral
    rw [hzero, if_neg Bool.false_ne_true] at hnumeral
    rwa [hnumeral] at h
  have hpositive : (0 : ℚ) < n / 10 ^ places :=
    lt_of_lt_of_le (by positivity) (Double.half_le_of_covers hpos hcovers)
  rw [Double.numeral, hnumeral] at hvalue
  have habs : |d.value| = n / 10 ^ places := by rw [hvalue, abs_withSign, abs_of_pos hpositive]
  -- The decimal has the sign of the double, since it is not zero.
  have hsign : decide (d.coefficient < 0) = x.negative := by
    rw [Bool.eq_iff_iff, decide_eq_true_iff, coefficient_neg_iff, hvalue,
      withSign_neg_iff hpositive]
  obtain ⟨hscale, hfew⟩ := hreduced.natAbs_le habs
  rw [abs_value_eq] at habs
  refine ⟨d, hd, toDouble_of_covers hx hpos hsign (hscale.trans hplaces) (hfew.trans_lt hn)
    (habs ▸ hcovers), fun hnone => ?_, hfew.trans_lt hn⟩
  rw [hnone, Int.natAbs_zero, Nat.cast_zero, zero_div] at habs
  exact hpositive.ne habs

/-- A double that comes back from decimals is the mean of its like. All numbers are converted to the
same decimal. The sum is a multiple of it that has room, so dividing by the count gives it back. -/
theorem mean_of_comesBack (hne : xs ≠ []) (hfinite : ∀ x ∈ xs, x.isFinite = true) (hy : y ∈ xs)
    (hcount : xs.length ≤ 2 ^ 40) (hequal : ∀ x ∈ xs, x.value = y.value)
    (h : y.ComesBack tie xs.length) : (mean xs).value = y.value := by
  have hlength : 0 < xs.length := List.length_pos_of_ne_nil hne
  -- Either way all numbers are the same decimal, with room for as many of it as there are.
  obtain ⟨d, hd, hvalue, hshape, hroom⟩ : ∃ d, ofDouble? y = some d ∧
      d.toDouble.value = y.value ∧ (d.coefficient ≠ 0 ∨ d.scale = 0) ∧
      xs.length * d.coefficient.natAbs < limit := by
    cases h with
    | whole i hvalue hroom =>
      exact exists_ofDouble?_of_whole (hfinite y hy) hlength hvalue hroom
    | digits n places hrecoverable hplaces hn hnumeral =>
      cases hzero : y.isZero with
      | true =>
        have hvalue : y.value = (0 : ℤ) := (Double.value_eq_zero hzero).trans Int.cast_zero.symm
        exact exists_ofDouble?_of_whole (hfinite y hy) hlength hvalue (Nat.two_pow_pos 96)
      | false =>
        obtain ⟨d, hd, heq, hsome, hfew⟩ := exists_ofDouble?_of_digits (hfinite y hy) hzero
          hrecoverable hplaces hn hnumeral
        refine ⟨d, hd, congrArg Double.value heq, .inl hsome, ?_⟩
        calc xs.length * d.coefficient.natAbs ≤ 2 ^ 40 * 2 ^ 50 := Nat.mul_le_mul hcount hfew.le
          _ < limit := by decide
  have hsame : ∀ x ∈ xs, ofDouble? x = some d := fun x hx => by
    rw [ofDouble?_eq_of_value_eq (hfinite x hx) (hfinite y hy) (hequal x hx), hd]
  rw [mean_of_same hne hsame hroom hshape, hvalue]

/-! ### The main result -/

/-- Only a number that is not finite is written as `null`. -/
theorem Report.number_eq_null_iff : Report.number x = .null ↔ x.isFinite = false := by
  unfold Report.number Double.whole?
  cases hx : x.isFinite with
  | false => simp
  | true =>
    refine iff_of_false ?_ Bool.noConfusion
    dsimp only
    split
    · split <;> exact Json.noConfusion
    · exact Json.noConfusion

/-- A mean is finite and lies between the least and the greatest of the numbers, up to
`meanError`. It lies exactly between them if they differ by more than this error can make up for, or
if they are all equal and come back from decimals. -/
theorem mean_between (tie : Tie) (xs : List Double) (low high : Double) (hlow : low ∈ xs)
    (hhigh : high ∈ xs) (hfinite : ∀ x ∈ xs, x.isFinite = true)
    (hbounds : ∀ x ∈ xs, low.value ≤ x.value ∧ x.value ≤ high.value)
    (hcount : xs.length ≤ 2 ^ 40)
    (hroom : xs.length * max |low.value| |high.value| < 2 ^ (1022 : ℤ)) :
    (mean xs).isFinite = true ∧ Report.number (mean xs) ≠ .null ∧
      low.value - meanError xs.length (max |low.value| |high.value|) ≤ (mean xs).value ∧
      (mean xs).value ≤ high.value + meanError xs.length (max |low.value| |high.value|) ∧
      (xs.length * meanError xs.length (max |low.value| |high.value|) ≤ high.value - low.value ∨
          low.value = high.value ∧ low.ComesBack tie xs.length →
        low.value ≤ (mean xs).value ∧ (mean xs).value ≤ high.value) := by
  have hmost : ∀ x ∈ xs, |x.value| ≤ max |low.value| |high.value| := fun x hx =>
    abs_le_max_abs_abs (hbounds x hx).1 (hbounds x hx).2
  have hne : xs ≠ [] := List.ne_nil_of_mem hlow
  obtain ⟨hmean, hnear⟩ := abs_mean_sub_le hne hfinite hmost hcount hroom
  clear hroom
  generalize meanError xs.length (max |low.value| |high.value|) = error at hnear ⊢
  have hlength : (0 : ℚ) < xs.length := by exact_mod_cast List.length_pos_of_ne_nil hne
  have hmore := (exactSum_bounds hhigh hbounds).1
  have hless := (exactSum_bounds hlow hbounds).2
  have hback : exactSum xs / xs.length * xs.length = exactSum xs :=
    div_mul_cancel₀ _ hlength.ne'
  generalize exactSum xs / xs.length = μ at hnear hback
  obtain ⟨hnearLow, hnearHigh⟩ := abs_le.1 hnear
  have hspread : 0 ≤ high.value - low.value := sub_nonneg.2 (hbounds low hlow).2
  -- The exact mean lies between the least and the greatest, and the mean is near it.
  have hμlow : low.value ≤ μ := le_of_mul_le_mul_right (by linarith) hlength
  have hμhigh : μ ≤ high.value := le_of_mul_le_mul_right (by linarith) hlength
  have hwritten : Report.number (mean xs) ≠ .null := fun hnull =>
    Bool.false_ne_true ((Report.number_eq_null_iff.1 hnull).symm.trans hmean)
  refine ⟨hmean, hwritten, by linarith, by linarith, ?_⟩
  rintro (hwide | ⟨hequal, hback⟩)
  · -- The least and the greatest pull the exact mean away from each other.
    have hlow' : low.value + error ≤ μ := le_of_mul_le_mul_right (by linarith) hlength
    have hhigh' : μ ≤ high.value - error := le_of_mul_le_mul_right (by linarith) hlength
    constructor <;> linarith
  · -- All numbers are equal here, and their mean comes back from decimals as they do.
    have hall : ∀ x ∈ xs, x.value = low.value := fun x hx =>
      le_antisymm (hequal ▸ (hbounds x hx).2) (hbounds x hx).1
    have hvalue := mean_of_comesBack hne hfinite hlow hcount hall hback
    exact ⟨hvalue.ge, hvalue.trans_le hequal.le⟩

/-- The mean of `1` and `2.5` lies between them, and the mean of `2.5` and `2.5` is `2.5`. -/
theorem mean_between_halves :
    let one : Double := { negative := false, magnitude := 0x3FF0000000000000 }
    let more : Double := { negative := false, magnitude := 0x4004000000000000 }
    (mean [more, one]).isFinite = true ∧
      1 ≤ (mean [more, one]).value ∧ (mean [more, one]).value ≤ 5 / 2 ∧
      (mean [more, more]).value = 5 / 2 := by
  intro one more
  have hone : one.value = 1 := by
    rw [Double.value_of_parts (m := 2 ^ 52) (e := -52) rfl (by decide) (by decide)]
    norm_num
  have hmore : more.value = 5 / 2 := by
    rw [Double.value_of_parts (m := 5 * 2 ^ 50) (e := -51) rfl (by decide) (by decide)]
    norm_num
  have hnumeral : more.absNumeral .up = 25 / 10 := by
    have hshortest : more.shortest .up = { digits := 25, exponent := -1 } := by decide +kernel
    rw [Double.absNumeral, if_neg (by decide), hshortest]
    norm_num
  -- The numeral is filled up with zeros to as many digits as the conversion keeps.
  have hkept : more.absNumeral .up = (25 * 10 ^ 14 : ℕ) / 10 ^ 15 := by
    rw [hnumeral]
    norm_num
  have hrecoverable : more.Recoverable .up :=
    Double.recoverable_of_le (by decide) (by decide) (by decide) (by decide) (by decide) (by decide)
      hkept
  have hroom (c : ℚ) (hc : c ≤ 2 ^ (10 : ℤ)) : c < 2 ^ (1022 : ℤ) :=
    hc.trans_lt (zpow_lt_zpow_right₀ (by norm_num) (by decide))
  obtain ⟨hmean, -, -, -, hdifferent⟩ := mean_between .up [more, one] one more (by simp) (by simp)
    (by decide) (by simp [hone, hmore]; norm_num) (by simp)
    (hroom _ (by rw [hone, hmore]; norm_num))
  obtain ⟨hlow, hhigh⟩ := hdifferent (.inl (by rw [hone, hmore, meanError]; norm_num))
  obtain ⟨-, -, -, -, hequal⟩ := mean_between .up [more, more] more more (by simp) (by simp)
    (by decide) (by simp) (by simp) (hroom _ (by rw [hmore]; norm_num))
  obtain ⟨hlow', hhigh'⟩ := hequal (.inr ⟨rfl, .digits 25 1 hrecoverable (by decide) (by decide)
    (by rw [hnumeral]; norm_num)⟩)
  rw [hone] at hlow
  rw [hmore] at hhigh hlow' hhigh'
  exact ⟨hmean, hlow, hhigh, le_antisymm hhigh' hlow'⟩

/-- The mean of a single `4096.029` is greater than it, the mean of the two whole numbers below
`2 ^ 53` is less than both, and the mean of two numbers of `1e308` is infinite and written as
`null`. -/
theorem mean_not_between :
    let x : Double := { negative := false, magnitude := 0x40B000076C8B4396 }
    let low : Double := { negative := false, magnitude := 0x433FFFFFFFFFFFFE }
    let high : Double := { negative := false, magnitude := 0x433FFFFFFFFFFFFF }
    let great : Double := { negative := false, magnitude := 0x7FE1CCF385EBC8A0 }
    x.isFinite = true ∧ x.value < (mean [x]).value ∧
      low.isFinite = true ∧ high.isFinite = true ∧ low.value < high.value ∧
      (mean [low, high]).value < low.value ∧
      great.isFinite = true ∧ (mean [great, great]).isFinite = false ∧
      Report.number (mean [great, great]) = .null := by
  intro x low high great
  -- The conversion to decimals keeps a digit too many, and the double of it is another one.
  have hsingle : mean [x] = { negative := false, magnitude := 0x40B000076C8B4398 } := by
    decide +kernel
  -- The mean in decimals lies between the two, and the double of it does not.
  have hpair : mean [low, high] = { negative := false, magnitude := 0x433FFFFFFFFFFFFD } := by
    decide +kernel
  have hgreat : mean [great, great] = Double.infinity false := by decide +kernel
  have hinfinite : (mean [great, great]).isFinite = false := by
    rw [hgreat]
    decide
  have hlow : low.value = 2 ^ 53 - 2 := by
    rw [Double.value_of_parts (m := 2 ^ 53 - 2) (e := 0) rfl (by decide) (by decide)]
    norm_num
  have hhigh : high.value = 2 ^ 53 - 1 := by
    rw [Double.value_of_parts (m := 2 ^ 53 - 1) (e := 0) rfl (by decide) (by decide)]
    norm_num
  refine ⟨by decide, ?_, by decide, by decide, by rw [hlow, hhigh]; norm_num, ?_, by decide,
    hinfinite, Report.number_eq_null_iff.2 hinfinite⟩
  · rw [hsingle,
      Double.value_of_parts (m := 4503631513207702) (e := -40) rfl (by decide) (by decide),
      Double.value_of_parts (m := 4503631513207704) (e := -40) rfl (by decide) (by decide)]
    norm_num
  · rw [hpair, hlow,
      Double.value_of_parts (m := 2 ^ 53 - 3) (e := 0) rfl (by decide) (by decide)]
    norm_num

end Roster
