import Roster.Proofs.Number.Nearest

/-!
# `Roster.Proofs.Number.Arithmetic`: sums, products and quotients are the nearest doubles

Every operation is carried out on whole numbers and rounded once. So for finite doubles and a result
in range it gives the double that is nearest to the exact result: `add_isNearest`, `mul_isNearest`
and `div_isNearest`. Two operations are exact: `value_ofNat`, for numbers of at most 53 bits, and
`round`, which gives the whole number that is nearest (`exists_value_round`).
-/

set_option autoImplicit false

namespace Roster.Double

variable {x y : Double} {r : ℚ} {n d : ℕ} {e : ℤ}

/-! ### Scaled numbers -/

/-- A natural number and a power of two, as the quotient that is rounded. -/
theorem scaled_div (n : ℕ) (e : ℤ) :
    ((n * twoTo e.toNat : ℕ) : ℚ) / (twoTo (-e).toNat : ℕ) = n * 2 ^ e := by
  have hunit : (twoTo (-e).toNat : ℚ) ≠ 0 := by exact_mod_cast (twoTo_pos _).ne'
  push_cast
  rw [cast_twoTo e]
  field_simp

/-- A natural number times a power of two, with a sign, is rounded to the nearest double. -/
theorem ofScaled_isNearest (negative : Bool) (hr : InRange (signOf negative * (n * 2 ^ e))) :
    (ofScaled negative n e).IsNearest (signOf negative * (n * 2 ^ e)) := by
  rw [← scaled_div] at hr ⊢
  exact ofQuotient_isNearest_signOf negative (twoTo_pos _) hr

/-- A whole number is its sign and its size. -/
theorem signOf_mul_natAbs (i : ℤ) : signOf (i < 0) * (i.natAbs : ℕ) = (i : ℚ) := by
  rcases lt_or_ge i 0 with hneg | hpos
  · rw [decide_eq_true hneg, signOf_true, neg_one_mul, ← Int.cast_natCast, ← Int.cast_neg]
    congr 1
    omega
  · rw [decide_eq_false (not_lt.2 hpos), signOf_false, one_mul, ← Int.cast_natCast]
    congr 1
    omega

/-- The two zeros stand for zero. -/
theorem value_signed_zero (negative : Bool) : value { zero with negative } = 0 := value_eq_zero rfl

/-! ### Operations -/

/-- The sum of two doubles is the double nearest to the sum of their values. -/
theorem add_isNearest (hx : x.isFinite = true) (hy : y.isFinite = true)
    (hr : InRange (x.value + y.value)) : (x.add y).IsNearest (x.value + y.value) := by
  -- In the smaller unit of the two, both are whole numbers.
  have hsum : ((x.units (min x.exponent y.exponent) + y.units (min x.exponent y.exponent) : ℤ) : ℚ)
      * 2 ^ (min x.exponent y.exponent) = x.value + y.value := by
    rw [Int.cast_add, add_mul, units_mul (min_le_left _ _), units_mul (min_le_right _ _)]
  unfold add
  rw [isNaN_of_isFinite hx, isNaN_of_isFinite hy, isInfinite_of_isFinite hx,
    isInfinite_of_isFinite hy]
  simp only [Bool.or_false, Bool.false_eq_true, if_false]
  rw [← hsum] at hr ⊢
  generalize x.units (min x.exponent y.exponent) + y.units (min x.exponent y.exponent) = total
    at hr ⊢
  split_ifs with hzero
  · refine isNearest_of_value_eq rfl ?_
    rw [value_signed_zero, hzero, Int.cast_zero, zero_mul]
  · rw [← signOf_mul_natAbs, mul_assoc] at hr ⊢
    exact ofScaled_isNearest _ hr

/-- The product of two doubles is the double nearest to the product of their values. -/
theorem mul_isNearest (hx : x.isFinite = true) (hy : y.isFinite = true)
    (hr : InRange (x.value * y.value)) : (x.mul y).IsNearest (x.value * y.value) := by
  have hproduct : signOf (x.negative != y.negative)
      * (((x.significand * y.significand : ℕ) : ℚ) * 2 ^ (x.exponent + y.exponent))
      = x.value * y.value := by
    rw [value, value, signOf_bne, zpow_add₀ two_ne_zero]
    push_cast
    ring
  unfold mul
  rw [isNaN_of_isFinite hx, isNaN_of_isFinite hy, isInfinite_of_isFinite hx,
    isInfinite_of_isFinite hy]
  simp only [Bool.or_false, Bool.false_eq_true, if_false]
  rw [← hproduct] at hr ⊢
  exact ofScaled_isNearest _ hr

/-- The quotient whose rounding is the quotient of two doubles. -/
theorem exists_div_eq (hx : x.isFinite = true) (hy : y.isFinite = true)
    (hzero : y.isZero = false) : ∃ n d : ℕ, 0 < d ∧
      x.div y = ofQuotient (x.negative != y.negative) n d ∧
      (n : ℚ) / d = |x.value| / |y.value| := by
  refine ⟨x.significand * twoTo (x.exponent - y.exponent).toNat,
    y.significand * twoTo (-(x.exponent - y.exponent)).toNat,
    Nat.mul_pos (significand_pos hzero) (twoTo_pos _), ?_, ?_⟩
  · unfold div
    rw [isNaN_of_isFinite hx, isNaN_of_isFinite hy, isInfinite_of_isFinite hx,
      isInfinite_of_isFinite hy, hzero]
    rfl
  · have hscaled := scaled_div x.significand (x.exponent - y.exponent)
    rw [abs_value, abs_value, Nat.cast_mul y.significand, mul_comm (y.significand : ℚ), ← div_div,
      hscaled, zpow_sub₀ two_ne_zero]
    field_simp

/-- The quotient of two doubles is the double nearest to the quotient of their values. -/
theorem div_isNearest (hx : x.isFinite = true) (hy : y.isFinite = true) (hzero : y.isZero = false)
    (hr : InRange (x.value / y.value)) : (x.div y).IsNearest (x.value / y.value) := by
  obtain ⟨n, d, hd, heq, hvalue⟩ := exists_div_eq hx hy hzero
  have hquotient : signOf (x.negative != y.negative) * ((n : ℚ) / d) = x.value / y.value := by
    rw [hvalue, abs_value, abs_value, value, value, signOf_bne]
    cases y.negative <;> simp [div_neg, mul_div_assoc]
  rw [heq, ← hquotient]
  exact ofQuotient_isNearest_signOf _ hd (hquotient ▸ hr)

/-! ### Whole numbers -/

/-- A natural number is rounded to the nearest double. -/
theorem ofNat_isNearest (hr : InRange n) : (ofNat n).IsNearest n := by
  have hone : (n : ℚ) / (1 : ℕ) = n := by rw [Nat.cast_one, div_one]
  rw [← hone] at hr ⊢
  exact ofQuotient_isNearest one_pos hr

/-- With at most 53 bits a natural number is a whole number of its own units, which are at most
two. -/
theorem exists_eq_mul_unit (hn : n ≤ 2 ^ 53) (hgreat : e = -1074 ∨ (2 : ℚ) ^ (e + 52) ≤ n) :
    ∃ j : ℕ, (n : ℚ) = j * 2 ^ e := by
  rcases le_or_gt e 0 with hle | hgt
  · refine ⟨n * 2 ^ (-e).toNat, ?_⟩
    have hback : (2 : ℚ) ^ (-e).toNat * 2 ^ e = 1 := by
      rw [← zpow_natCast, Int.toNat_of_nonneg (by omega), ← zpow_add₀ two_ne_zero,
        neg_add_cancel, zpow_zero]
    rw [Nat.cast_mul, Nat.cast_pow, Nat.cast_ofNat, mul_assoc, hback, mul_one]
  · obtain hleast | hgreat := hgreat
    · omega
    have hmost : (n : ℚ) ≤ 2 ^ (53 : ℤ) := by exact_mod_cast hn
    have he : e + 52 ≤ 53 :=
      (zpow_le_zpow_iff_right₀ (by norm_num : (1 : ℚ) < 2)).1 (hgreat.trans hmost)
    obtain rfl : e = 1 := by omega
    refine ⟨2 ^ 52, ?_⟩
    rw [le_antisymm hmost hgreat]
    norm_num

/-- A natural number of at most 53 bits is a double. Rounding leaves it alone, because there is a
double of this value. -/
theorem value_ofNat (hn : n ≤ 2 ^ 53) : (ofNat n).isFinite = true ∧ (ofNat n).value = n := by
  rcases Nat.eq_zero_or_pos n with rfl | hpos
  · exact ⟨rfl, (value_eq_zero rfl).trans Nat.cast_zero.symm⟩
  have hone : (n : ℚ) / (1 : ℕ) = n := by rw [Nat.cast_one, div_one]
  have hrange : InRange (n / (1 : ℕ)) := by
    rw [hone]
    have hsize : |(n : ℚ)| ≤ 2 ^ (53 : ℤ) := by
      rw [abs_of_nonneg (Nat.cast_nonneg n)]
      exact_mod_cast hn
    exact .of_le hsize (zpow_lt_zpow_right₀ (by norm_num) (by decide))
  obtain ⟨q, m, hgreat, hm, hfinite, hvalue, -⟩ := exists_ofQuotient hpos one_pos hrange
  rw [hone] at hgreat hm
  obtain ⟨j, hj⟩ := exists_eq_mul_unit hn hgreat
  have hunit : (0 : ℚ) < 2 ^ q := by positivity
  rw [hj, mul_div_cancel_right₀ _ hunit.ne'] at hm
  -- A whole number of units is what it is rounded to.
  obtain ⟨hlow, hhigh⟩ := hm.bounds
  have hwhole : (m : ℤ) = j := eq_of_abs_sub_lt_one (by
    rw [Int.cast_natCast, Int.cast_natCast]
    exact abs_lt.2 ⟨by linarith, by linarith⟩)
  rw [hj, ← Int.ofNat_inj.1 hwhole]
  exact ⟨hfinite, hvalue⟩

/-- A whole number with a sign that has at most 53 bits is a double. -/
theorem value_ofQuotient_one (negative : Bool) (hn : n ≤ 2 ^ 53) :
    (ofQuotient negative n 1).isFinite = true ∧
      (ofQuotient negative n 1).value = signOf negative * n := by
  obtain ⟨hfinite, hvalue⟩ := value_ofNat hn
  cases negative with
  | false =>
    rw [signOf_false, one_mul]
    exact ⟨hfinite, hvalue⟩
  | true =>
    rw [signOf_true, neg_one_mul, ← hvalue, ← value_neg]
    exact ⟨hfinite, rfl⟩

/-- Every integer of at most 53 bits is the value of a double. -/
theorem exists_value_eq_intCast {i : ℤ} (hi : |i| ≤ 2 ^ 53) :
    ∃ y : Double, y.isFinite = true ∧ y.value = i := by
  obtain ⟨hfinite, hvalue⟩ :=
    value_ofQuotient_one (decide (i < 0)) (n := i.natAbs) (by rw [Int.abs_eq_natAbs] at hi; omega)
  exact ⟨_, hfinite, hvalue.trans (signOf_mul_natAbs i)⟩

/-- A quotient is rounded to a whole number by adding a half. -/
theorem roundHalfUp_bounds (m : ℕ) {unit : ℕ} (hunit : 0 < unit) :
    (((2 * m + unit) / (2 * unit) : ℕ) : ℚ) ≤ m / unit + 1 / 2 ∧
      (m / unit : ℚ) < ((2 * m + unit) / (2 * unit) : ℕ) + 1 / 2 := by
  have hlow := Nat.div_mul_le_self (2 * m + unit) (2 * unit)
  have hhigh := Nat.lt_div_mul_add (a := 2 * m + unit) (b := 2 * unit) (by omega)
  generalize (2 * m + unit) / (2 * unit) = w at hlow hhigh ⊢
  have hlow : (w : ℚ) * (2 * unit) ≤ 2 * m + unit := by exact_mod_cast hlow
  have hhigh : (2 * m + unit : ℚ) < w * (2 * unit) + 2 * unit := by exact_mod_cast hhigh
  have hpos : (0 : ℚ) < unit := by exact_mod_cast hunit
  constructor
  · rw [div_add' _ _ _ hpos.ne', le_div_iff₀ hpos]
    linarith
  · rw [div_lt_iff₀ hpos]
    linarith

/-- A double is rounded to a whole number that is at most a half away, and if it has no binary
places, to itself. -/
theorem exists_value_round (hx : x.isFinite = true) : ∃ w : ℕ, x.round.isFinite = true ∧
    x.round.value = signOf x.negative * w ∧ |x.round.value - x.value| ≤ 1 / 2 ∧
    (2 ^ 52 ≤ |x.value| → x.round.value = x.value) := by
  unfold round
  rw [hx, Bool.not_true, Bool.false_or]
  split_ifs with hexponent
  · -- There is nothing to round.
    have hwhole : 0 ≤ x.exponent := of_decide_eq_true hexponent
    refine ⟨x.significand * 2 ^ x.exponent.toNat, hx, ?_, ?_, fun _ => rfl⟩
    · rw [value, Nat.cast_mul, Nat.cast_pow, Nat.cast_ofNat, ← zpow_natCast,
        Int.toNat_of_nonneg hwhole]
    · rw [sub_self, abs_zero]
      norm_num
  · -- With binary places the significand is divided by a power of two, and the half is rounded up.
    obtain ⟨k, hk⟩ : ∃ k : ℕ, x.exponent = -(k + 1 : ℕ) :=
      ⟨(-x.exponent).toNat - 1, by simp only [decide_eq_true_eq] at hexponent; omega⟩
    have hvalue : x.value = signOf x.negative * (x.significand / (twoTo (k + 1) : ℕ)) := by
      rw [value, hk, zpow_neg, zpow_natCast, div_eq_mul_inv, twoTo, Nat.pow_eq, Nat.cast_pow,
        Nat.cast_ofNat]
    have htwo : 2 ≤ twoTo (k + 1) := by
      have := twoTo_pos k
      rw [twoTo, Nat.pow_eq, pow_succ] at *
      omega
    have hm := x.significand_lt
    rw [hk, neg_neg, Int.toNat_natCast]
    dsimp only
    generalize twoTo (k + 1) = unit at hvalue htwo ⊢
    obtain ⟨hlow, hhigh⟩ := roundHalfUp_bounds x.significand (two_pos.trans_le htwo)
    have hroom : (2 * x.significand + unit) / (2 * unit) ≤ 2 ^ 53 :=
      Nat.div_le_of_le_mul (by omega)
    obtain ⟨hfinite, hround⟩ := value_ofQuotient_one x.negative hroom
    refine ⟨_, hfinite, hround, ?_, fun hgreat => ?_⟩
    · rw [hround, hvalue, ← mul_sub, abs_mul, abs_signOf, one_mul, abs_le]
      constructor <;> linarith
    · -- With a binary place the significand has at most 52 bits before the point.
      have hpos : (0 : ℚ) < unit := by exact_mod_cast two_pos.trans_le htwo
      rw [hvalue, abs_mul, abs_signOf, one_mul, abs_of_nonneg (by positivity),
        le_div_iff₀ hpos] at hgreat
      have hless : (x.significand : ℚ) < 2 ^ 53 := by exact_mod_cast hm
      have htwo : (2 : ℚ) ≤ unit := by exact_mod_cast htwo
      linarith

end Roster.Double
