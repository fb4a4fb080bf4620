import Roster.Proofs.Number.Rounding

/-!
# `Roster.Proofs.Number.Nearest`: what a number is rounded to

`Double.IsNearest r x` says, without a word about significands and units, that no finite double
is nearer to the rational number `r` than `x`, and that a tie goes to an even significand. The main
result is `ofQuotient_isNearest`: this is what rounding a quotient gives.

The proof is about one grid, the multiples of the unit that the quotient has. The quotient is
rounded to a point of it, and all doubles that are not on it are below a power of two that is.

Two things follow for everything that is computed by rounding. A double that is a bound of the
number is a bound of what it is rounded to (`IsNearest.le_value`, `IsNearest.value_le`), so a double
is rounded to itself (`IsNearest.value_eq`). And the error is at most `2 ^ -53` of the number or, if
this is subnormal, half the least unit (`IsNearest.abs_sub_le`).
-/

set_option autoImplicit false

namespace Roster.Double

variable {x y : Double} {r s : ℚ} {n d k m : ℕ} {e : ℤ}

/-! ### Values -/

/-- The sign of a number as a factor. -/
def signOf (negative : Bool) : ℚ := if negative then -1 else 1

/-- The factor of a number without a sign. -/
@[simp] theorem signOf_false : signOf false = 1 := rfl

/-- The factor of a number with a sign. -/
@[simp] theorem signOf_true : signOf true = -1 := rfl

/-- The other sign is the other factor. -/
@[simp] theorem signOf_not (negative : Bool) : signOf (!negative) = -signOf negative := by
  cases negative <;> simp

/-- The sign of a product or a quotient is the product of the signs. -/
theorem signOf_bne (a b : Bool) : signOf (a != b) = signOf a * signOf b := by
  cases a <;> cases b <;> simp

/-- A sign has the absolute value one. -/
@[simp] theorem abs_signOf (negative : Bool) : |signOf negative| = 1 := by
  cases negative <;> simp

/-- The exact value of a finite double. -/
def value (x : Double) : ℚ := signOf x.negative * (x.significand * 2 ^ x.exponent)

/-- The value of a positive double from its significand and its exponent. -/
theorem value_of_parts (hnegative : x.negative = false) (hm : x.significand = m)
    (he : x.exponent = e) : x.value = m * 2 ^ e := by
  rw [value, hnegative, signOf_false, one_mul, hm, he]

/-- The absolute value of a double is that of its significand in its unit. -/
theorem abs_value (x : Double) : |x.value| = x.significand * 2 ^ x.exponent := by
  have hvalue : (0 : ℚ) ≤ x.significand * 2 ^ x.exponent := by positivity
  rw [value, abs_mul, abs_signOf, one_mul, abs_of_nonneg hvalue]

/-- The double with the other sign stands for the negative number. -/
@[simp] theorem value_neg (x : Double) : x.neg.value = -x.value := by
  rw [value, value, ← neg_mul, ← signOf_not]
  rfl

/-- A zero of either sign stands for zero. -/
theorem value_eq_zero (h : x.isZero = true) : x.value = 0 := by
  have hcode : x.magnitude = 0 := by simpa [isZero] using h
  have hsignificand : x.significand = 0 := by
    have hpos : 0 < hidden := twoTo_pos 52
    unfold significand
    rw [hcode, if_pos hpos]
  simp [value, hsignificand]

/-- A double that is no zero does not stand for zero. -/
theorem value_ne_zero (h : x.isZero = false) : x.value ≠ 0 := by
  have hpos : (0 : ℚ) < x.significand := by exact_mod_cast significand_pos h
  rw [← abs_pos, abs_value]
  positivity

/-- A double that does not stand for zero is no zero. -/
theorem isZero_eq_false (h : x.value ≠ 0) : x.isZero = false :=
  Bool.eq_false_iff.2 fun hzero => h (value_eq_zero hzero)

/-- A double that stands for a positive number has no sign. -/
theorem negative_eq_false (h : 0 < x.value) : x.negative = false := by
  refine Bool.eq_false_iff.2 fun hnegative => ?_
  rw [value, hnegative, signOf_true, neg_one_mul, neg_pos] at h
  exact absurd h (not_lt.2 (by positivity))

/-- A finite double is a whole number of units of any exponent that is not greater than its own. -/
theorem units_mul (h : e ≤ x.exponent) : (x.units e : ℚ) * 2 ^ e = x.value := by
  have hunit : (twoTo (x.exponent - e).toNat : ℚ) * 2 ^ e = 2 ^ x.exponent := by
    have hnat : ((x.exponent - e).toNat : ℤ) = x.exponent - e := Int.toNat_of_nonneg (by omega)
    rw [twoTo, Nat.pow_eq, Nat.cast_pow, Nat.cast_ofNat, ← zpow_natCast, hnat,
      ← zpow_add₀ two_ne_zero, sub_add_cancel]
  rw [value, ← hunit]
  unfold units
  cases x.negative with
  | false =>
    rw [if_neg Bool.false_ne_true, signOf_false]
    push_cast
    ring
  | true =>
    rw [if_pos rfl, signOf_true]
    push_cast
    ring

/-- What a magnitude code is made of. The significand may be as great as twice the leading bit,
which the code takes as a carry into the exponent. -/
theorem significand_of_magnitude (hx : x.magnitude = k * hidden + m) (hm : m ≤ 2 * hidden)
    (hnormal : k = 0 ∨ hidden ≤ m) :
    (x.significand = m ∧ x.exponent = k - 1074) ∨
      (m = 2 * hidden ∧ x.significand = hidden ∧ x.exponent = k - 1073) := by
  have hpos : 0 < hidden := twoTo_pos 52
  have hdiv (j i : ℕ) (hi : i < hidden) : (j * hidden + i) / hidden = j := by
    rw [Nat.mul_comm, Nat.mul_add_div hpos, Nat.div_eq_of_lt hi, Nat.add_zero]
  have hmod (j i : ℕ) (hi : i < hidden) : (j * hidden + i) % hidden = i := by
    rw [Nat.mul_comm, Nat.mul_add_mod, Nat.mod_eq_of_lt hi]
  unfold significand exponent
  rw [hx]
  rcases lt_or_ge m hidden with hsub | hge
  · -- Below the least normal number the exponent is the least one.
    obtain rfl : k = 0 := by omega
    rw [if_pos (by omega), if_pos (by omega)]
    exact .inl ⟨by omega, by omega⟩
  · have hcode : k * hidden + m = (k + 1) * hidden + (m - hidden) := by
      rw [Nat.add_mul]
      omega
    rw [if_neg (by omega), if_neg (by omega), hcode]
    rcases lt_or_ge m (2 * hidden) with hless | hall
    · rw [hmod _ _ (by omega), hdiv _ _ (by omega)]
      exact .inl ⟨by omega, by push_cast; omega⟩
    · -- The significand has been rounded up to the next power of two, which the code shows as a
      -- carry.
      have hcode : (k + 1) * hidden + (m - hidden) = (k + 2) * hidden + 0 := by
        rw [Nat.add_mul, Nat.add_mul]
        omega
      rw [hcode, hmod _ _ hpos, hdiv _ _ hpos]
      exact .inr ⟨by omega, by omega, by push_cast; omega⟩

/-- The value that a magnitude code stands for, also where the significand carries over into the
next exponent. -/
theorem value_of_magnitude (hnegative : x.negative = false) (hx : x.magnitude = k * hidden + m)
    (hm : m ≤ 2 * hidden) (hnormal : k = 0 ∨ hidden ≤ m) :
    x.value = m * 2 ^ (k - 1074 : ℤ) ∧ (m % 2 = 0 → x.significand % 2 = 0) := by
  rcases significand_of_magnitude hx hm hnormal with
    ⟨hsignificand, hexponent⟩ | ⟨htwice, hsignificand, hexponent⟩
  · rw [value_of_parts hnegative hsignificand hexponent, hsignificand]
    exact ⟨rfl, id⟩
  · have hcarry : (k : ℤ) - 1073 = k - 1074 + 1 := by omega
    rw [value_of_parts hnegative hsignificand hexponent, hsignificand, hcarry,
      zpow_add_one₀ two_ne_zero, htwice]
    exact ⟨by push_cast; ring, fun _ => by decide⟩

/-! ### Nearest doubles -/

/-- Whether a double is what a number is rounded to: no finite double is nearer, and of two that are
equally near it is the one with an even significand. -/
structure IsNearest (r : ℚ) (x : Double) : Prop where
  finite : x.isFinite = true
  abs_le : ∀ y : Double, y.isFinite = true → |x.value - r| ≤ |y.value - r|
  even_of_tie : ∀ y : Double, y.isFinite = true → y.value ≠ x.value →
    |y.value - r| = |x.value - r| → x.significand % 2 = 0

namespace IsNearest

/-- A double that is at most the number is at most what the number is rounded to. -/
theorem le_value (h : x.IsNearest r) (hy : y.isFinite = true) (hle : y.value ≤ r) :
    y.value ≤ x.value := by
  have hnear := h.abs_le y hy
  rw [abs_of_nonpos (sub_nonpos.2 hle)] at hnear
  have hlow := neg_le_abs (x.value - r)
  linarith

/-- A double that is at least the number is at least what the number is rounded to. -/
theorem value_le (h : x.IsNearest r) (hy : y.isFinite = true) (hle : r ≤ y.value) :
    x.value ≤ y.value := by
  have hnear := h.abs_le y hy
  rw [abs_of_nonneg (sub_nonneg.2 hle)] at hnear
  have hhigh := le_abs_self (x.value - r)
  linarith

/-- A double is rounded to itself. -/
theorem value_eq (h : x.IsNearest y.value) (hy : y.isFinite = true) : x.value = y.value :=
  le_antisymm (h.value_le hy le_rfl) (h.le_value hy le_rfl)

/-- A number with the other sign is rounded to the double with the other sign. -/
theorem neg (h : x.IsNearest r) : x.neg.IsNearest (-r) := by
  have hturn (y : Double) : |y.neg.value - -r| = |y.value - r| := by
    rw [value_neg, ← abs_neg]
    congr 1
    ring
  have hback (y : Double) : |y.neg.value - r| = |y.value - -r| := by
    rw [value_neg, ← abs_neg]
    congr 1
    ring
  refine ⟨h.finite, fun y hy => ?_, fun y hy hne htie => h.even_of_tie y.neg hy ?_ ?_⟩
  · rw [hturn, ← hback]
    exact h.abs_le y.neg hy
  · intro heq
    rw [value_neg] at hne heq
    exact hne (neg_eq_iff_eq_neg.1 heq)
  · rw [hback, htie, hturn]

end IsNearest

/-- Whole numbers less than one apart are equal. -/
theorem eq_of_abs_sub_lt_one {i j : ℤ} (h : |(i : ℚ) - j| < 1) : i = j :=
  sub_eq_zero.1 (Int.abs_lt_one_iff.1 (by exact_mod_cast h))

/-- On the grid of a unit, what is nearest to a number is at most a half away, and no other point
of the grid is nearer. -/
theorem abs_sub_le_of_between {closed : Bool} {ρ : ℚ} (h : Between closed (m - 1 / 2) (m + 1 / 2) ρ)
    (j : ℤ) : |(m : ℚ) - ρ| ≤ |j - ρ| := by
  obtain ⟨hlow, hhigh⟩ := h.bounds
  rcases lt_trichotomy j m with hless | heq | hmore
  · have hless : (j : ℚ) + 1 ≤ m := by exact_mod_cast hless
    rw [abs_of_nonpos (by linarith : (j : ℚ) - ρ ≤ 0), abs_le]
    constructor <;> linarith
  · rw [heq, Int.cast_natCast]
  · have hmore : (m : ℚ) + 1 ≤ j := by exact_mod_cast hmore
    rw [abs_of_nonneg (by linarith : 0 ≤ (j : ℚ) - ρ), abs_le]
    constructor <;> linarith

/-- Two points of the grid that are equally near are both a half away, so the ends count. -/
theorem closed_of_tie {closed : Bool} {ρ : ℚ} (h : Between closed (m - 1 / 2) (m + 1 / 2) ρ)
    {j : ℤ} (hne : (j : ℚ) ≠ m) (htie : |j - ρ| = |(m : ℚ) - ρ|) : closed = true := by
  cases closed with
  | true => rfl
  | false =>
    obtain ⟨hlow, hhigh⟩ := h
    have hhalf : |(m : ℚ) - ρ| < 1 / 2 := abs_lt.2 ⟨by linarith, by linarith⟩
    obtain ⟨hlow', hhigh'⟩ := abs_lt.1 (htie ▸ hhalf)
    have heq : j = m := eq_of_abs_sub_lt_one (by
      rw [Int.cast_natCast]
      exact abs_lt.2 ⟨by linarith, by linarith⟩)
    exact absurd (by rw [heq, Int.cast_natCast]) hne

/-- A finite double is on the grid of a unit, or it is below the power of two from which on all
doubles with 53 bits are. -/
theorem exists_value_eq_or_lt (x : Double) (q : ℤ) :
    (∃ j : ℤ, x.value = j * 2 ^ q) ∨ (-1074 < q ∧ x.value < 2 ^ (q + 52)) := by
  rcases le_or_gt q x.exponent with hle | hlt
  · exact .inl ⟨x.units q, (units_mul hle).symm⟩
  · right
    have hleast := x.le_exponent
    refine ⟨by omega, (le_abs_self _).trans_lt ?_⟩
    have hsignificand : (x.significand : ℚ) < 2 ^ 53 := by exact_mod_cast x.significand_lt
    rw [abs_value]
    calc (x.significand : ℚ) * 2 ^ x.exponent < 2 ^ 53 * 2 ^ x.exponent := by gcongr
      _ = 2 ^ (x.exponent + 53) := by
        rw [zpow_add₀ two_ne_zero, mul_comm]
        norm_num
      _ ≤ 2 ^ (q + 52) := zpow_le_zpow_right₀ (by norm_num) (by omega)

/-! ### Rounding quotients -/

/-- Whether a number is in the range of doubles, with a factor of two to spare. -/
def InRange (r : ℚ) : Prop := |r| < 2 ^ (1023 : ℤ)

/-- A number is in range if its negative is. -/
theorem InRange.neg (h : InRange r) : InRange (-r) := by
  unfold InRange
  rwa [abs_neg]

/-- What is bounded by a number in range is in range. -/
theorem InRange.of_le {bound : ℚ} (h : |r| ≤ bound) (hbound : bound < 2 ^ (1023 : ℤ)) :
    InRange r := h.trans_lt hbound

/-- Every number that is not negative is a quotient of natural numbers. -/
theorem natAbs_num_div_den (h : 0 ≤ r) : (r.num.natAbs : ℚ) / r.den = r := by
  conv_rhs => rw [← Rat.num_div_den r]
  rw [← Int.cast_natCast, Int.natAbs_of_nonneg (Rat.num_nonneg.2 h)]

/-- Every number that is not negative lies in the interval of a whole number. -/
theorem exists_between {ρ : ℚ} (h : 0 ≤ ρ) :
    ∃ m : ℕ, Between (m % 2 == 0) (m - 1 / 2) (m + 1 / 2) ρ := by
  have hbetween := between_roundHalfEven (n := ρ.num.natAbs) ρ.den_pos
  rw [natAbs_num_div_den h] at hbetween
  exact ⟨_, hbetween⟩

/-- What a quotient is rounded to: a whole number of the units that the quotient itself has. That
number is rounded to even, and the unit is the one that leaves 53 bits before the point, or the
least unit. -/
theorem exists_ofQuotient (hn : 0 < n) (hd : 0 < d) (hr : InRange (n / d)) :
    ∃ (q : ℤ) (m : ℕ), (q = -1074 ∨ (2 : ℚ) ^ (q + 52) ≤ n / d) ∧
      Between (m % 2 == 0) (m - 1 / 2) (m + 1 / 2) (n / d / 2 ^ q) ∧
      (ofQuotient false n d).isFinite = true ∧
      (ofQuotient false n d).value = m * 2 ^ q ∧
      (m % 2 = 0 → (ofQuotient false n d).significand % 2 = 0) := by
  have hv : (0 : ℚ) < n / d := div_pos (by exact_mod_cast hn) (by exact_mod_cast hd)
  have hlog : Int.log 2 ((n : ℚ) / d) < 1023 :=
    (Int.lt_zpow_iff_log_lt (by decide) hv).1 (by
      rw [InRange, abs_of_pos hv] at hr
      exact hr)
  generalize hq : max (Int.log 2 ((n : ℚ) / d) - 52) (-1074) = q
  obtain ⟨m, hm⟩ := exists_between (ρ := n / d / 2 ^ q) (by positivity)
  obtain ⟨hlow, hhigh⟩ := hm.bounds
  -- In this unit the quotient has 53 bits before the point, unless it is the least unit.
  have hmost : m ≤ 2 * hidden := by
    have hless : (n : ℚ) / d / 2 ^ q < 2 ^ 53 := by
      rw [div_lt_two_pow_iff]
      exact (Int.lt_zpow_iff_log_lt (by decide) hv).2 (by push_cast; omega)
    have hless : (m : ℚ) < 2 ^ 53 + 1 := by linarith
    have hless : m < 2 ^ 53 + 1 := by exact_mod_cast hless
    rw [hidden_eq]
    omega
  have hgreat : q = -1074 ∨ (2 : ℚ) ^ (q + 52) ≤ n / d := by
    rcases eq_or_ne q (-1074) with hleast | hmore
    · exact .inl hleast
    · have hchoice := max_choice (Int.log 2 ((n : ℚ) / d) - 52) (-1074)
      exact .inr ((Int.zpow_le_iff_le_log (by decide) hv).2 (by push_cast; omega))
  -- Apart from the least unit, the leading one is among them.
  have hnormal : (q + 1074).toNat = 0 ∨ hidden ≤ m := by
    rcases hgreat with hleast | hgreat
    · exact .inl (by omega)
    · have hmore : (2 : ℚ) ^ 52 ≤ n / d / 2 ^ q := (two_pow_le_div_iff 52).2 hgreat
      have hmore : (2 : ℚ) ^ 52 < m + 1 := by linarith
      have hmore : 2 ^ 52 < m + 1 := by exact_mod_cast hmore
      rw [hidden_eq]
      exact .inr (by omega)
  have hcode := nearestCode_eq hn hd hq hm
  have hinfinity : infinityCode = 2047 * hidden := rfl
  have hfinite : nearestCode n d < infinityCode := by
    have hpos : 0 < hidden := twoTo_pos 52
    have hsteps : (q + 1074).toNat * hidden ≤ 2044 * hidden :=
      Nat.mul_le_mul_right hidden (by omega)
    omega
  have hmagnitude : (ofQuotient false n d).magnitude = (q + 1074).toNat * hidden + m := by
    rw [← hcode]
    exact Nat.min_eq_left hfinite.le
  have hvalue := value_of_magnitude rfl hmagnitude hmost hnormal
  have hexponent : (((q + 1074).toNat : ℕ) : ℤ) = q + 1074 := Int.toNat_of_nonneg (by omega)
  rw [hexponent, add_sub_cancel_right] at hvalue
  refine ⟨q, m, hgreat, hm, ?_, hvalue⟩
  rw [isFinite, hmagnitude, ← hcode]
  exact decide_eq_true hfinite

/-- A quotient is rounded to the nearest double. On the grid of the unit the rounding is the nearest
point, and doubles off the grid are below the power of two at its lower end, which is nearer. -/
theorem ofQuotient_isNearest (hd : 0 < d) (hr : InRange (n / d)) :
    (ofQuotient false n d).IsNearest (n / d) := by
  rcases Nat.eq_zero_or_pos n with rfl | hn
  · have hvalue : (ofQuotient false 0 d).value = 0 := value_eq_zero rfl
    refine ⟨rfl, fun y _ => ?_, fun _ _ _ _ => rfl⟩
    rw [hvalue, Nat.cast_zero, zero_div, sub_zero, abs_zero]
    exact abs_nonneg _
  obtain ⟨q, m, hgreat, hm, hfinite, hvalue, heven⟩ := exists_ofQuotient hn hd hr
  generalize (n : ℚ) / d = v at hgreat hm hvalue ⊢
  have hunit : (0 : ℚ) < 2 ^ q := by positivity
  have hscale (t : ℚ) : |t * 2 ^ q - v| = |t - v / 2 ^ q| * 2 ^ q := by
    rw [← abs_of_pos hunit, ← abs_mul, abs_of_pos hunit, sub_mul, div_mul_cancel₀ _ hunit.ne']
  -- Doubles below the power of two are farther away than the power of two itself.
  have hbelow (y : Double) (hq : -1074 < q) (hy : y.value < 2 ^ (q + 52)) :
      |(ofQuotient false n d).value - v| < |y.value - v| := by
    obtain hleast | hgreat := hgreat
    · omega
    have hgrid : ((2 ^ 52 : ℤ) : ℚ) * 2 ^ q = 2 ^ (q + 52) := by
      rw [zpow_add₀ two_ne_zero, mul_comm]
      norm_num
    have hpower : |((2 ^ 52 : ℤ) : ℚ) * 2 ^ q - v| < |y.value - v| := by
      rw [hgrid, abs_of_nonpos (sub_nonpos.2 hgreat),
        abs_of_nonpos (sub_nonpos.2 (hy.le.trans hgreat))]
      linarith
    refine lt_of_le_of_lt ?_ hpower
    rw [hvalue, hscale, hscale]
    exact mul_le_mul_of_nonneg_right (abs_sub_le_of_between hm _) hunit.le
  refine ⟨hfinite, fun y hy => ?_, fun y hy hne htie => heven ?_⟩
  · rcases exists_value_eq_or_lt y q with ⟨j, hj⟩ | ⟨hq, hlt⟩
    · rw [hvalue, hj, hscale, hscale]
      exact mul_le_mul_of_nonneg_right (abs_sub_le_of_between hm j) hunit.le
    · exact (hbelow y hq hlt).le
  · rcases exists_value_eq_or_lt y q with ⟨j, hj⟩ | ⟨hq, hlt⟩
    · rw [hj, hvalue] at hne
      rw [hj, hvalue, hscale, hscale] at htie
      have hclosed := closed_of_tie hm (fun heq => hne (by rw [heq]))
        (mul_right_cancel₀ hunit.ne' htie)
      simpa using hclosed
    · exact absurd htie (hbelow y hq hlt).ne'

/-- The same with a sign. -/
theorem ofQuotient_isNearest_signOf (negative : Bool) (hd : 0 < d)
    (hr : InRange (signOf negative * (n / d))) :
    (ofQuotient negative n d).IsNearest (signOf negative * (n / d)) := by
  cases negative with
  | false =>
    rw [signOf_false, one_mul] at hr ⊢
    exact ofQuotient_isNearest hd hr
  | true =>
    rw [signOf_true, neg_one_mul] at hr ⊢
    have hr : InRange (n / d) := by simpa using hr.neg
    exact (ofQuotient_isNearest hd hr).neg

/-- A double is what its own value is rounded to. -/
theorem isNearest_of_value_eq (hx : x.isFinite = true) (h : x.value = r) : x.IsNearest r := by
  refine ⟨hx, fun y _ => ?_, fun y _ hne htie => ?_⟩
  · rw [h, sub_self, abs_zero]
    exact abs_nonneg _
  · rw [h, sub_self, abs_zero, abs_eq_zero, sub_eq_zero] at htie
    exact absurd (htie.trans h.symm) hne

/-- Doubles of equal values are equal, apart from the two zeros. Both are what their value is
rounded to, and the sign is that of the value. -/
theorem eq_of_value_eq (hx : x.isFinite = true) (hy : y.isFinite = true)
    (hzero : x.isZero = false) (h : x.value = y.value) : x = y := by
  -- A double lies in its own interval, so its absolute value is rounded back to it.
  have hcovers {z : Double} (hz : z.isFinite = true) (hne : z.isZero = false) :
      ofQuotient z.negative |z.value|.num.natAbs |z.value|.den = z := by
    have hpos := significand_pos hne
    have hpositive : 0 < |z.value| := abs_pos.2 (value_ne_zero hne)
    have hunit : (2 : ℚ) ^ z.exponent = 4 * 2 ^ (z.exponent - 2) := by
      rw [zpow_sub₀ two_ne_zero]
      norm_num
      ring
    have hquarter : (0 : ℚ) < 2 ^ (z.exponent - 2) := by positivity
    refine ofQuotient_of_covers hz (Int.natAbs_pos.2 (Rat.num_pos.2 hpositive).ne') (Rat.den_pos _)
      hpos ?_
    rw [natAbs_num_div_den hpositive.le, abs_value, hunit]
    exact covers_of_quarter hpos (by linarith) (by linarith)
  have hnegative : x.negative = y.negative := by
    rcases lt_or_gt_of_ne (value_ne_zero hzero) with hless | hmore
    · have hturned {z : Double} (hz : z.value < 0) : z.neg.negative = false :=
        negative_eq_false (by rw [value_neg]; exact neg_pos.2 hz)
      exact Bool.not_inj ((hturned hless).trans (hturned (h ▸ hless)).symm)
    · rw [negative_eq_false hmore, negative_eq_false (h ▸ hmore)]
  rw [← hcovers hx hzero, ← hcovers hy (isZero_eq_false (h ▸ value_ne_zero hzero)), hnegative, h]

/-- Half the least unit is `2 ^ -53` of the least number that is not subnormal. -/
theorem half_unit_le (hnormal : 2 ^ (-1022 : ℤ) ≤ r) :
    (2 : ℚ) ^ (-1075 : ℤ) ≤ r * 2 ^ (-53 : ℤ) := by
  rw [show (-1075 : ℤ) = -1022 + -53 from rfl, zpow_add₀ two_ne_zero]
  exact mul_le_mul_of_nonneg_right hnormal (by positivity)

/-- Every number in range is near to some double: at most half a unit away, which is `2 ^ -53` of
the number or half the least unit. -/
theorem exists_abs_sub_le (hr : InRange r) : ∃ y : Double, y.isFinite = true ∧
    |y.value - r| ≤ max (|r| * 2 ^ (-53 : ℤ)) (2 ^ (-1075 : ℤ)) := by
  -- A number and its negative are rounded alike, so it may be taken as not negative.
  wlog hpos : 0 ≤ r generalizing r with hflip
  · obtain ⟨y, hy, hnear⟩ := hflip (r := -r) hr.neg (neg_nonneg.2 (not_le.1 hpos).le)
    refine ⟨y.neg, hy, ?_⟩
    rw [abs_neg] at hnear
    rwa [value_neg, ← abs_neg, neg_sub, sub_neg_eq_add, add_comm, ← sub_neg_eq_add]
  rw [abs_of_nonneg hpos]
  rcases hpos.eq_or_lt with rfl | hpos
  · refine ⟨zero, rfl, le_max_of_le_right ?_⟩
    rw [value_eq_zero (x := zero) rfl, sub_zero, abs_zero]
    positivity
  have hnum := natAbs_num_div_den hpos.le
  have hn : 0 < r.num.natAbs := Int.natAbs_pos.2 (Rat.num_pos.2 hpos).ne'
  obtain ⟨q, m, hgreat, hm, hfinite, hvalue, -⟩ :=
    exists_ofQuotient hn r.den_pos (hnum.symm ▸ hr)
  rw [hnum] at hgreat hm
  refine ⟨_, hfinite, ?_⟩
  have hunit : (0 : ℚ) < 2 ^ q := by positivity
  have hhalf : (1 / 2 : ℚ) * 2 ^ q = 2 ^ (q - 1) := by
    rw [zpow_sub_one₀ two_ne_zero]
    ring
  obtain ⟨hlow, hhigh⟩ := hm.bounds
  have herror : |(m : ℚ) * 2 ^ q - r| ≤ 2 ^ (q - 1) := by
    have hscale : (m : ℚ) * 2 ^ q - r = (m - r / 2 ^ q) * 2 ^ q := by
      rw [sub_mul, div_mul_cancel₀ _ hunit.ne']
    rw [hscale, abs_mul, abs_of_pos hunit, ← hhalf]
    exact mul_le_mul_of_nonneg_right (abs_le.2 ⟨by linarith, by linarith⟩) hunit.le
  rw [hvalue]
  rcases hgreat with rfl | hgreat
  · exact herror.trans (le_max_right _ _)
  · refine herror.trans (le_max_of_le_left ?_)
    calc (2 : ℚ) ^ (q - 1) = 2 ^ (q + 52) * 2 ^ (-53 : ℤ) := by
          rw [← zpow_add₀ two_ne_zero]
          congr 1
          omega
      _ ≤ r * 2 ^ (-53 : ℤ) := mul_le_mul_of_nonneg_right hgreat (by positivity)

namespace IsNearest

/-- What a number in range is rounded to is at most half a unit away. -/
theorem abs_sub_le (h : x.IsNearest r) (hr : InRange r) :
    |x.value - r| ≤ max (|r| * 2 ^ (-53 : ℤ)) (2 ^ (-1075 : ℤ)) := by
  obtain ⟨y, hy, hnear⟩ := exists_abs_sub_le hr
  exact (h.abs_le y hy).trans hnear

/-- For a number that is not subnormal this is a part of the number. -/
theorem abs_sub_le_of_normal (h : x.IsNearest r) (hr : InRange r)
    (hnormal : 2 ^ (-1022 : ℤ) ≤ |r|) : |x.value - r| ≤ |r| * 2 ^ (-53 : ℤ) :=
  (h.abs_sub_le hr).trans (max_le le_rfl (half_unit_le hnormal))

/-- For all numbers up to a bound that is not subnormal, it is a part of the bound. -/
theorem abs_sub_le_of_le {bound : ℚ} (h : x.IsNearest r) (hr : |r| ≤ bound)
    (hnormal : 2 ^ (-1022 : ℤ) ≤ bound) (hbound : bound < 2 ^ (1023 : ℤ)) :
    |x.value - r| ≤ bound / 2 ^ 53 := by
  have hpart : bound / 2 ^ 53 = bound * 2 ^ (-53 : ℤ) := div_eq_mul_inv _ _
  rw [hpart]
  exact (h.abs_sub_le (.of_le hr hbound)).trans
    (max_le (mul_le_mul_of_nonneg_right hr (by positivity)) (half_unit_le hnormal))

end IsNearest

end Roster.Double
