import Roster.Decimal.Arithmetic
import Roster.Proofs.Decimal.Adding
import Roster.Proofs.Number.Accuracy

/-!
# `Roster.Proofs.Decimal.Returning`: which double a decimal becomes

A whole decimal is rounded once, so it becomes the nearest double (`toDouble_isNearest_of_whole`).
Any other decimal is put together from a whole part and a fraction, and the sum is rounded to the
scale and divided by it again, which are up to seven roundings. `abs_toDouble_sub_le` follows them
with relative errors: the double is off by at most `2 ^ -48` of the decimal.

The rounding to the scale repairs all of this when the digits are few. Before it the sum is less
than half a unit away from the digits as a whole number, so these are what it is rounded to, and
the last division is the only rounding that counts (`exists_unsigned_eq`).
-/

set_option autoImplicit false

namespace Roster.Decimal

open Double

variable {d : Decimal} {n scale : ℕ}

/-- The double of a decimal without its sign. -/
def unsigned (n scale : ℕ) : Double :=
  if scale = 0 then Double.ofNat n
  else
    let whole := Double.ofNat (n / tenTo scale)
    let fraction := Double.div (Double.ofNat (n % tenTo scale)) (Double.ofNat (tenTo scale))
    if fraction.isZero then whole
    else
      let power := Double.pow (Double.ofNat 10) scale
      Double.div (Double.round (Double.mul (Double.add whole fraction) power)) power

/-- The double of a decimal is that of its coefficient without a sign, with the sign put back. -/
theorem toDouble_eq (d : Decimal) : d.toDouble =
    if d.coefficient < 0 then (unsigned d.coefficient.natAbs d.scale).neg
    else unsigned d.coefficient.natAbs d.scale := rfl

/-- The value of a decimal by its sign and its absolute value. -/
theorem value_eq_signOf (d : Decimal) :
    d.value = signOf (d.coefficient < 0) * (d.coefficient.natAbs / 10 ^ d.scale) := by
  rw [← mul_div_assoc, signOf_mul_natAbs]
  rfl

/-- A number with a sign as a rational number. -/
theorem cast_signed (negative : Bool) (n : ℕ) :
    (signed negative n : ℚ) = signOf negative * n := by
  cases negative <;> simp [signed]

/-! ### Powers of ten -/

/-- Repeated squaring gives the double that is nearest to a power of ten. -/
theorem pow_ten (h : scale ≤ maxScale) :
    Double.pow (Double.ofNat 10) scale = Double.ofNat (tenTo scale) := by
  have hall : ∀ s ∈ List.range (maxScale + 1),
      Double.pow (Double.ofNat 10) s = Double.ofNat (tenTo s) := by decide +kernel
  exact hall scale (List.mem_range.2 (Nat.lt_succ_of_le h))

/-- A power of ten as a rational number. -/
theorem cast_tenTo_eq (scale : ℕ) : (tenTo scale : ℚ) = 10 ^ scale := by
  simp [tenTo]

/-- The powers of ten up to the 22nd are doubles. -/
theorem value_ofNat_tenTo (h : scale ≤ 22) : (Double.ofNat (tenTo scale)).value = 10 ^ scale := by
  have hall : ∀ s ∈ List.range 23, -52 ≤ (Double.ofNat (tenTo s)).exponent ∧
      (Double.ofNat (tenTo s)).units (-52) = tenTo s * 2 ^ 52 := by decide +kernel
  obtain ⟨hexponent, hunits⟩ := hall scale (List.mem_range.2 (Nat.lt_succ_of_le h))
  rw [← units_mul hexponent, hunits]
  have htwo : (2 : ℚ) ^ 52 * 2 ^ (-52 : ℤ) = 1 := by norm_num
  rw [Int.cast_mul, Int.cast_natCast, Int.cast_pow, Int.cast_ofNat, mul_assoc, htwo, mul_one,
    cast_tenTo_eq]

/-! ### Ranges -/

/-- Decimals and all that is computed from them are far from the greatest double. -/
theorem inRange_of_abs_le {r : ℚ} (h : |r| ≤ 2 ^ (200 : ℤ)) : InRange r :=
  .of_le h (zpow_lt_zpow_right₀ (by norm_num) (by decide))

/-- They are as far from the subnormal ones. -/
theorem normal_of_le {r : ℚ} (h : 2 ^ (-200 : ℤ) ≤ r) : r = 0 ∨ 2 ^ (-1022 : ℤ) ≤ r :=
  .inr ((zpow_le_zpow_right₀ (by norm_num) (by decide)).trans h)

/-! ### Whole decimals -/

/-- A whole decimal is rounded once. -/
theorem toDouble_isNearest_of_whole (hscale : d.scale = 0) (hr : InRange d.coefficient) :
    d.toDouble.IsNearest d.coefficient := by
  have hnat : (unsigned d.coefficient.natAbs d.scale) = Double.ofNat d.coefficient.natAbs :=
    if_pos hscale
  rw [toDouble_eq, hnat]
  rw [← signOf_mul_natAbs] at hr ⊢
  split_ifs with hneg
  · rw [decide_eq_true hneg, signOf_true, neg_one_mul] at hr ⊢
    have hr : InRange (d.coefficient.natAbs : ℕ) := by simpa using hr.neg
    exact (ofNat_isNearest hr).neg
  · rw [decide_eq_false hneg, signOf_false, one_mul] at hr ⊢
    exact ofNat_isNearest hr

/-! ### Relative errors -/

/-- A natural number of up to 96 bits, rounded. -/
theorem within_ofNat (hn : n ≤ 2 ^ 96) : Within (1 / 2 ^ 53) (Double.ofNat n).value n := by
  have hle : (n : ℚ) ≤ 2 ^ 96 := by exact_mod_cast hn
  have hrange : InRange (n : ℚ) := inRange_of_abs_le (by
    rw [abs_of_nonneg (Nat.cast_nonneg n)]
    exact hle.trans (by norm_num))
  refine .of_isNearest (ofNat_isNearest hrange) hrange ?_
  rcases Nat.eq_zero_or_pos n with rfl | hpos
  · exact .inl Nat.cast_zero
  · have hone : (1 : ℚ) ≤ n := by exact_mod_cast hpos
    exact normal_of_le (le_trans (by norm_num) hone)

/-- A number of 96 bits becomes a finite double. -/
theorem isFinite_ofNat (hn : n ≤ 2 ^ 96) : (Double.ofNat n).isFinite = true := by
  have hle : (n : ℚ) ≤ 2 ^ 96 := by exact_mod_cast hn
  refine (ofNat_isNearest (inRange_of_abs_le ?_)).finite
  rw [abs_of_nonneg (Nat.cast_nonneg n)]
  exact hle.trans (by norm_num)

/-- The powers of ten that scales stand for have less than 96 bits. -/
theorem tenTo_le (hscale : scale ≤ maxScale) : tenTo scale ≤ 2 ^ 96 :=
  (Nat.pow_le_pow_right (by decide) hscale).trans (by decide)

/-- A number that is near to one of moderate size is in range. -/
theorem inRange_of_within {ε r s : ℚ} (h : Within ε r s) (hε : ε ≤ 1 / 2 ^ 40)
    (hhigh : s ≤ 2 ^ (150 : ℤ)) : InRange r := by
  have hhalf : ε ≤ 1 / 2 := hε.trans (by norm_num)
  have hr : 0 ≤ r := (mul_nonneg h.nonneg (by linarith)).trans h.low
  refine inRange_of_abs_le ?_
  rw [abs_of_nonneg hr]
  calc r ≤ s * (1 + ε) := h.high
    _ ≤ 2 ^ (150 : ℤ) * 2 := mul_le_mul hhigh (by linarith) (by linarith [h.error_nonneg])
        (by positivity)
    _ ≤ 2 ^ (200 : ℤ) := by norm_num

/-- A number that is near to one of moderate size, rounded. -/
theorem within_of_isNearest {x : Double} {ε η r s : ℚ} (h : x.IsNearest r) (hr : Within ε r s)
    (hε : ε ≤ 1 / 2 ^ 40) (hlow : s = 0 ∨ 2 ^ (-150 : ℤ) ≤ s) (hhigh : s ≤ 2 ^ (150 : ℤ))
    (hη : ε + 1 / 2 ^ 53 + 1 / 2 ^ 90 ≤ η) : Within η x.value s := by
  have hhalf : ε ≤ 1 / 2 := hε.trans (by norm_num)
  have hnormal : r = 0 ∨ 2 ^ (-1022 : ℤ) ≤ r := by
    rcases hlow with rfl | hlow
    · exact .inl (le_antisymm (by simpa using hr.high) (by simpa using hr.low))
    · refine normal_of_le ?_
      calc (2 : ℚ) ^ (-200 : ℤ) ≤ 2 ^ (-150 : ℤ) * (1 / 2) := by norm_num
        _ ≤ s * (1 - ε) := mul_le_mul hlow (by linarith) (by norm_num) hr.nonneg
        _ ≤ r := hr.low
  -- The product of the two errors is all that their sum leaves out.
  have hproduct : 1 / 2 ^ 53 * ε ≤ 1 / 2 ^ 90 := by
    calc 1 / 2 ^ 53 * ε ≤ 1 / 2 ^ 53 * (1 / 2 ^ 40) := by gcongr
      _ ≤ 1 / 2 ^ 90 := by norm_num
  exact (Within.of_isNearest h (inRange_of_within hr hε hhigh) hnormal).trans hr (by norm_num)
    (by linarith)

/-- The whole part and the fraction of a quotient. -/
theorem div_add_mod_div {k : ℕ} (hk : 0 < k) (n : ℕ) :
    ((n / k : ℕ) : ℚ) + (n % k : ℕ) / k = n / k := by
  have hk : (k : ℚ) ≠ 0 := by exact_mod_cast hk.ne'
  have hsplit : ((n / k : ℕ) : ℚ) * k + (n % k : ℕ) = n := by
    exact_mod_cast Nat.div_add_mod' n k
  rw [← hsplit, add_div, mul_div_cancel_right₀ _ hk]

/-- The same for a power of ten. -/
theorem whole_add_fraction (n scale : ℕ) :
    ((n / tenTo scale : ℕ) : ℚ) + (n % tenTo scale : ℕ) / 10 ^ scale = n / 10 ^ scale := by
  rw [← cast_tenTo_eq]
  exact div_add_mod_div (tenTo_pos scale) n

/-- A decimal is zero or of moderate size. -/
theorem decimal_bounds (hscale : scale ≤ maxScale) (hn : n < 2 ^ 96) :
    ((n : ℚ) / 10 ^ scale = 0 ∨ 2 ^ (-150 : ℤ) ≤ (n : ℚ) / 10 ^ scale) ∧
      (n : ℚ) / 10 ^ scale ≤ 2 ^ (150 : ℤ) := by
  have hmost : (n : ℚ) ≤ 2 ^ 96 := by exact_mod_cast hn.le
  have htenMost : (10 : ℚ) ^ scale ≤ 10 ^ 28 := pow_le_pow_right₀ (by norm_num) hscale
  have hone : (1 : ℚ) ≤ 10 ^ scale := one_le_pow₀ (by norm_num)
  constructor
  · rcases Nat.eq_zero_or_pos n with rfl | hpos
    · exact .inl (by simp)
    · have hsome : (1 : ℚ) ≤ n := by exact_mod_cast hpos
      refine .inr (le_trans (by norm_num : (2 : ℚ) ^ (-150 : ℤ) ≤ 1 / 10 ^ 28) ?_)
      gcongr
  · exact (div_le_self (Nat.cast_nonneg n) hone).trans (hmost.trans (by norm_num))

/-- A double that is about a coefficient, divided by one that is about a power of ten. -/
theorem within_div {x t : Double} {φ τ η : ℚ} (hscale : scale ≤ maxScale) (hn : n < 2 ^ 96)
    (hx : x.isFinite = true) (ht : t.isFinite = true) (hcoefficient : Within φ x.value n)
    (hpower : Within τ t.value (10 ^ scale)) (hφ : φ ≤ 1 / 2 ^ 45) (hτ : τ ≤ 1 / 2 ^ 45)
    (hη : φ + τ + 1 / 2 ^ 53 + 1 / 2 ^ 75 ≤ η) :
    (x.div t).isFinite = true ∧ Within η (x.div t).value (n / 10 ^ scale) := by
  have hten : (0 : ℚ) < 10 ^ scale := by positivity
  obtain ⟨hlow, hhigh⟩ := decimal_bounds hscale hn
  have hzero : t.isZero = false := isZero_eq_false (hpower.left_pos (by linarith) hten).ne'
  have hquotient : Within (φ + τ + 1 / 2 ^ 80) (x.value / t.value) (n / 10 ^ scale) := by
    refine hcoefficient.div hpower hten (by linarith) (by linarith) ?_
    have hsmall : (φ + τ + 1 / 2 ^ 80) * τ ≤ 1 / 2 ^ 43 * (1 / 2 ^ 45) :=
      mul_le_mul (by linarith) hτ hpower.error_nonneg (by norm_num)
    linarith
  have hdiv := div_isNearest hx ht hzero (inRange_of_within hquotient (by linarith) hhigh)
  exact ⟨hdiv.finite, within_of_isNearest hdiv hquotient (by linarith) hlow hhigh (by linarith)⟩

/-- A sum of doubles that is about a decimal, brought to the scale of it: about its coefficient. Two
roundings are followed, that of the sum and that of the product. -/
theorem within_scaled {x y t : Double} {φ τ η : ℚ} (hscale : scale ≤ maxScale) (hn : n < 2 ^ 96)
    (hx : x.isFinite = true) (hy : y.isFinite = true) (ht : t.isFinite = true)
    (hsum : Within φ (x.value + y.value) (n / 10 ^ scale)) (hpower : Within τ t.value (10 ^ scale))
    (hφ : φ ≤ 1 / 2 ^ 45) (hτ : τ ≤ 1 / 2 ^ 45)
    (hη : φ + τ + 2 / 2 ^ 53 + 1 / 2 ^ 75 ≤ η) :
    ((x.add y).mul t).isFinite = true ∧ Within η ((x.add y).mul t).value n := by
  have hten : (0 : ℚ) < 10 ^ scale := by positivity
  obtain ⟨hlow, hhigh⟩ := decimal_bounds hscale hn
  obtain ⟨hlow', hhigh'⟩ := decimal_bounds (Nat.zero_le maxScale) hn
  rw [pow_zero, div_one] at hlow' hhigh'
  have hback : (n : ℚ) / 10 ^ scale * 10 ^ scale = n := div_mul_cancel₀ _ hten.ne'
  have hφ' : φ ≤ 1 / 2 ^ 40 := by linarith
  -- The sum is rounded once, which adds a part in `2 ^ 53` to the error.
  have hadd := add_isNearest hx hy (inRange_of_within hsum hφ' hhigh)
  have hv := within_of_isNearest hadd hsum hφ' hlow hhigh le_rfl
  -- Multiplying by the power adds up both errors, and the product of them is too small to count.
  have hproduct : Within (φ + τ + 1 / 2 ^ 53 + 1 / 2 ^ 80) ((x.add y).value * t.value) n := by
    rw [← hback]
    refine hv.mul hpower (by linarith) (by linarith) ?_
    have hsmall : (φ + 1 / 2 ^ 53 + 1 / 2 ^ 90) * τ ≤ 1 / 2 ^ 44 * (1 / 2 ^ 45) :=
      mul_le_mul (by linarith) hτ hpower.error_nonneg (by norm_num)
    linarith
  have hmul := mul_isNearest hadd.finite ht (inRange_of_within hproduct (by linarith) hhigh')
  exact ⟨hmul.finite,
    within_of_isNearest hmul hproduct (by linarith) hlow' hhigh' (by linarith)⟩

/-- A double that is about a whole number, rounded to a whole number: this one, if it is small. The
condition says that the error is less than a half. Beyond 48 bits it need not be, but a half is then
a small part of the number. -/
theorem within_round {x : Double} {ε : ℚ} (hx : x.isFinite = true) (hn : 0 < n)
    (h : Within ε x.value n) (hε : ε ≤ 1 / 2 ^ 45) :
    x.round.isFinite = true ∧ (n * ε < 1 / 2 → x.round.value = n) ∧
      (ε ≤ 1 / 2 ^ 49 → Within (ε + 1 / 2 ^ 49) x.round.value n) := by
  have hn' : (0 : ℚ) < n := by exact_mod_cast hn
  have hpos : 0 < x.value := h.left_pos (by linarith) hn'
  obtain ⟨w, hfinite, hvalue, hhalf, -⟩ := exists_value_round hx
  have hnear := h.abs_sub_le
  rw [negative_eq_false hpos, signOf_false, one_mul] at hvalue
  have heq (hsmall : n * ε < 1 / 2) : x.round.value = n := by
    have hone : |(w : ℚ) - n| < 1 := by
      rw [← hvalue]
      calc |x.round.value - n| ≤ |x.round.value - x.value| + |x.value - n| := abs_sub_le _ _ _
        _ < 1 := by linarith
    have heq : (w : ℤ) = n := eq_of_abs_sub_lt_one (by exact_mod_cast hone)
    rw [hvalue, Int.ofNat_inj.1 heq]
  refine ⟨hfinite, heq, fun hε => ?_⟩
  -- Up to 48 bits the error is less than a half, and beyond them a half is little.
  rcases lt_or_ge (n : ℚ) (2 ^ 48) with hsmall | hgreat
  · rw [heq]
    · exact (Within.refl hn'.le).mono (by linarith [h.error_nonneg])
    · calc (n : ℚ) * ε ≤ n * (1 / 2 ^ 49) := mul_le_mul_of_nonneg_left hε hn'.le
        _ < 1 / 2 := by linarith
  · refine .of_abs_sub_le (by linarith [h.error_nonneg]) hn'.le ?_
    calc |x.round.value - n| ≤ |x.round.value - x.value| + |x.value - n| := abs_sub_le _ _ _
      _ ≤ n * (ε + 1 / 2 ^ 49) := by linarith

/-- Only a zero is about zero. -/
theorem isZero_of_within_zero {x : Double} {ε : ℚ} (h : Within ε x.value 0) :
    x.isZero = true := by
  have hvalue : x.value = 0 := le_antisymm (by simpa using h.high) (by simpa using h.low)
  by_contra hzero
  exact value_ne_zero (Bool.eq_false_iff.2 hzero) hvalue

/-- A coefficient with a fraction that becomes more than zero is positive. -/
theorem pos_of_not_isZero {x : Double} {ε : ℚ} (h : ¬x.isZero = true)
    (hfraction : Within ε x.value ((n % tenTo scale : ℕ) / 10 ^ scale)) : 0 < n := by
  refine Nat.pos_of_ne_zero fun hnone => h ?_
  rw [hnone, Nat.zero_mod] at hfraction
  exact isZero_of_within_zero (by simpa using hfraction)

/-- What becomes of a coefficient and a scale is the decimal up to `1 / 2 ^ 48` of it. The rounding
to a whole number costs more than all the others, each of which is a part in `2 ^ 53`. -/
theorem within_unsigned (hscale : scale ≤ maxScale) (hn : n < 2 ^ 96) :
    (unsigned n scale).isFinite = true ∧
      Within (1 / 2 ^ 48) (unsigned n scale).value (n / 10 ^ scale) := by
  unfold unsigned
  split_ifs with hwhole
  · subst hwhole
    rw [pow_zero, div_one]
    exact ⟨isFinite_ofNat hn.le, (within_ofNat hn.le).mono (by norm_num)⟩
  dsimp only
  have hpower := within_ofNat (tenTo_le hscale)
  rw [cast_tenTo_eq] at hpower
  have hpowerFinite := isFinite_ofNat (tenTo_le hscale)
  have hwholeLe : n / tenTo scale ≤ 2 ^ 96 := (Nat.div_le_self _ _).trans hn.le
  have hfractionLt : n % tenTo scale < 2 ^ 96 := (Nat.mod_le _ _).trans_lt hn
  obtain ⟨hfractionFinite, hfraction⟩ := within_div (η := 4 / 2 ^ 53) hscale hfractionLt
    (isFinite_ofNat hfractionLt.le) hpowerFinite (within_ofNat hfractionLt.le) hpower
    (by norm_num) (by norm_num) (by norm_num)
  -- Both parts are rounded on their own, and then their sum stands for the whole decimal.
  have hsum := ((within_ofNat hwholeLe).mono (by norm_num)).add hfraction
  rw [whole_add_fraction] at hsum
  split_ifs with hzero
  · rw [value_eq_zero hzero, add_zero] at hsum
    exact ⟨isFinite_ofNat hwholeLe, hsum.mono (by norm_num)⟩
  · rw [pow_ten hscale]
    obtain ⟨hscaledFinite, hscaled⟩ := within_scaled (η := 8 / 2 ^ 53) hscale hn
      (isFinite_ofNat hwholeLe) hfractionFinite hpowerFinite hsum hpower
      (by norm_num) (by norm_num) (by norm_num)
    have hpos := pos_of_not_isZero hzero hfraction
    obtain ⟨hroundFinite, -, hround⟩ := within_round hscaledFinite hpos hscaled (by norm_num)
    obtain ⟨hfinite, hwithin⟩ := within_div (η := 1 / 2 ^ 48) hscale hn hroundFinite hpowerFinite
      (hround (by norm_num)) hpower (by norm_num) (by norm_num) (by norm_num)
    exact ⟨hfinite, hwithin⟩

/-! ### Few digits -/

/-- With at most 15 digits and 22 places the last division is the only rounding that counts: the
double is the decimal as a quotient, rounded once. -/
theorem exists_unsigned_eq (hscale : scale ≤ 22) (hn : n < 2 ^ 50) : ∃ a b : ℕ, 0 < b ∧
    (a : ℚ) / b = n / 10 ^ scale ∧ unsigned n scale = ofQuotient false a b := by
  have hmost : scale ≤ maxScale := hscale.trans (by decide)
  unfold unsigned
  split_ifs with hwhole
  · subst hwhole
    exact ⟨n, 1, one_pos, by simp, rfl⟩
  dsimp only
  have hvalue := value_ofNat_tenTo hscale
  have hpowerFinite := isFinite_ofNat (tenTo_le hmost)
  have hpower : Within 0 (Double.ofNat (tenTo scale)).value (10 ^ scale) := by
    rw [hvalue]
    exact .refl (by positivity)
  -- The digits of both parts fit in a double, so the division alone is rounded.
  have hexact {k : ℕ} (hk : k ≤ n) :
      (Double.ofNat k).isFinite = true ∧ Within 0 (Double.ofNat k).value k := by
    obtain ⟨hfinite, hvalue⟩ := value_ofNat (n := k) (by omega)
    rw [hvalue]
    exact ⟨hfinite, .refl (Nat.cast_nonneg k)⟩
  obtain ⟨hwholeFinite, hwholeExact⟩ := hexact (Nat.div_le_self n (tenTo scale))
  obtain ⟨hdigitsFinite, hdigits⟩ := hexact (Nat.mod_le n (tenTo scale))
  obtain ⟨hfractionFinite, hfraction⟩ := within_div (η := 1 / 2 ^ 53 + 1 / 2 ^ 75) hmost
    ((Nat.mod_le n _).trans_lt (by omega)) hdigitsFinite hpowerFinite hdigits hpower
    (by norm_num) (by norm_num) (by norm_num)
  have hsum := (hwholeExact.mono (by norm_num)).add hfraction
  rw [whole_add_fraction] at hsum
  split_ifs with hzero
  · -- Nothing but zero becomes zero, so the decimal is whole.
    rw [value_eq_zero hzero] at hfraction
    have hnone : ((n % tenTo scale : ℕ) : ℚ) / 10 ^ scale = 0 := by
      have hlow := hfraction.low
      exact le_antisymm (by linarith) hfraction.nonneg
    have hparts := whole_add_fraction n scale
    rw [hnone, add_zero] at hparts
    exact ⟨n / tenTo scale, 1, one_pos, by rw [Nat.cast_one, div_one, hparts], rfl⟩
  · have hpos := pos_of_not_isZero hzero hfraction
    rw [pow_ten hmost]
    obtain ⟨hscaledFinite, hscaled⟩ := within_scaled (η := 3 / 2 ^ 53 + 1 / 2 ^ 74) hmost
      (by omega) hwholeFinite hfractionFinite hpowerFinite hsum hpower
      (by norm_num) (by norm_num) (by norm_num)
    -- What the roundings before add up to is less than a half, so the rounding undoes them.
    obtain ⟨hroundFinite, hround, -⟩ := within_round hscaledFinite hpos hscaled (by norm_num)
    have hsmall : (n : ℚ) < 2 ^ 50 := by exact_mod_cast hn
    have hround := hround (by linarith)
    have hn' : (0 : ℚ) < n := by exact_mod_cast hpos
    have hten : (0 : ℚ) < 10 ^ scale := by positivity
    obtain ⟨a, b, hb, heq, hquotient⟩ :=
      exists_div_eq hroundFinite hpowerFinite (isZero_eq_false (hvalue ▸ hten.ne'))
    refine ⟨a, b, hb, ?_, ?_⟩
    · rw [hquotient, hround, hvalue, abs_of_pos hn', abs_of_pos hten]
    · rw [heq, negative_eq_false (hround ▸ hn'), negative_eq_false (hvalue ▸ hten)]
      rfl

/-- A decimal with few digits that lies in the interval of a double becomes this double. -/
theorem toDouble_of_covers {x : Double} (hx : x.isFinite = true) (hpos : 0 < x.significand)
    (hsign : decide (d.coefficient < 0) = x.negative) (hscale : d.scale ≤ 22)
    (hn : d.coefficient.natAbs < 2 ^ 50) (h : x.Covers (d.coefficient.natAbs / 10 ^ d.scale)) :
    d.toDouble = x := by
  obtain ⟨a, b, hb, hvalue, heq⟩ := exists_unsigned_eq hscale hn
  have hquotient : (0 : ℚ) < a / b :=
    lt_of_lt_of_le (by positivity) (hvalue ▸ half_le_of_covers hpos h)
  have ha : 0 < a := by
    have hb : (0 : ℚ) < b := by exact_mod_cast hb
    exact_mod_cast (div_pos_iff_of_pos_right hb).1 hquotient
  have hround := ofQuotient_of_covers hx ha hb hpos (hvalue.symm ▸ h)
  rw [toDouble_eq, heq, ← hround, ← hsign]
  split_ifs with hneg
  · rw [decide_eq_true hneg]
    rfl
  · rw [decide_eq_false hneg]

/-- The double of a decimal is finite, and off by at most `1 / 2 ^ 48` of the decimal. -/
theorem abs_toDouble_sub_le (h : d.Fits) : d.toDouble.isFinite = true ∧
    |d.toDouble.value - d.value| ≤ |d.value| * (1 / 2 ^ 48) := by
  obtain ⟨hcoefficient, hscale⟩ := h
  obtain ⟨hfinite, hwithin⟩ := within_unsigned hscale hcoefficient
  have hnear := hwithin.abs_sub_le
  have hvalue := value_eq_signOf d
  rw [hvalue, abs_mul, abs_signOf, one_mul, abs_of_nonneg hwithin.nonneg, toDouble_eq]
  split_ifs with hneg
  · refine ⟨hfinite, ?_⟩
    rw [decide_eq_true hneg, signOf_true, value_neg, neg_one_mul, neg_sub_neg, abs_sub_comm]
    exact hnear
  · refine ⟨hfinite, ?_⟩
    rw [decide_eq_false hneg, signOf_false, one_mul]
    exact hnear

end Roster.Decimal
