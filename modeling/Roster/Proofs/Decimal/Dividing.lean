import Roster.Proofs.Decimal.Dropping
import Roster.Proofs.Decimal.Fitting

/-!
# `Roster.Proofs.Decimal.Dividing`: how far a quotient by a count is from the quotient

A division finds up to nine digits at a time. What it has come to, the digits so far and what is
left, stands for the exact quotient at every moment (`exactQuotient_step`), so the error is that of
the end: half a unit of the last place, if the places are exhausted, and otherwise a few units of a
coefficient that is full. Dropping zeros adds nothing. The main result is `abs_divide_sub_le`.

A multiple of the count takes another way and keeps its scale: `divide_mul`.
-/

set_option autoImplicit false

namespace Roster.Decimal

variable {d : Decimal} {scale count : ℕ}

/-! ### Digits -/

/-- Without a spare digit the places or the bits are exhausted. -/
theorem full_of_spareDigits_eq_zero {q bound : ℕ} (h : spareDigits q bound = 0) :
    bound = 0 ∨ limit ≤ 10 * q := by
  induction bound with
  | zero => exact .inl rfl
  | succ bound ih =>
    unfold spareDigits at h
    split_ifs at h with hroom
    refine .inr ?_
    obtain rfl | hfull := ih h
    · have hten : q * tenTo (0 + 1) = 10 * q := Nat.mul_comm _ _
      omega
    · exact hfull

/-- The spare digits are those that the quotient so far leaves room for. -/
theorem spareDigits_fits {q bound p : ℕ} (h : spareDigits q bound = p + 1) :
    q * tenTo (p + 1) < limit := by
  induction bound with
  | zero => cases h
  | succ bound ih =>
    unfold spareDigits at h
    split_ifs at h with hroom
    · exact h ▸ hroom
    · exact ih h

/-- A quotient with a fraction, rounded to one digit less. -/
theorem abs_dropLast_sub_le (q : ℕ) (exact : Bool) {f : ℚ} (hf : 0 ≤ f) (hf' : f < 1) :
    |(10 * dropLast q exact : ℚ) - (q + f)| ≤ 6 := by
  have hwhole : 10 * dropLast q exact ≤ q + 5 ∧ q ≤ 10 * dropLast q exact + 5 := by
    unfold dropLast
    split_ifs <;> omega
  obtain ⟨hlow, hhigh⟩ := hwhole
  have hlow : (10 * dropLast q exact : ℚ) ≤ q + 5 := by exact_mod_cast hlow
  have hhigh : (q : ℚ) ≤ 10 * dropLast q exact + 5 := by exact_mod_cast hhigh
  exact abs_le.2 ⟨by linarith, by linarith⟩

/-! ### Finding digits -/

/-- The exact quotient of a division that has come to `q`, with `r` left. -/
def exactQuotient (count q r scale : ℕ) : ℚ := (q + r / count) / 10 ^ scale

/-- Digits of the quotient that are found do not change it. -/
theorem exactQuotient_step {q r : ℕ} (hcount : 0 < count) (p scale : ℕ) :
    exactQuotient count (q * tenTo p + r * tenTo p / count) (r * tenTo p % count) (scale + p)
      = exactQuotient count q r scale := by
  have hten : (10 : ℚ) ^ p ≠ 0 := by positivity
  have hdigits := div_add_mod_div hcount (r * tenTo p)
  rw [Nat.cast_mul, cast_tenTo_eq, mul_div_right_comm] at hdigits
  rw [exactQuotient, exactQuotient, Nat.cast_add, Nat.cast_mul, cast_tenTo_eq, add_assoc, hdigits,
    ← add_mul, pow_add, mul_div_mul_right _ _ hten]

/-- A step with no spare digit is the last one: the rest is rounded into the quotient, and a
quotient that has outgrown its room gives its last digit away. -/
theorem divideFrom_of_full {q r : ℕ} (hr : r ≠ 0) (hcount : r < count)
    (h : spareDigits q (min 9 (maxScale - scale)) = 0) :
    divideFrom count q r scale =
      if roundHalfEven (q * count + r) count < limit then
        (roundHalfEven (q * count + r) count, scale)
      else (dropLast (roundHalfEven (q * count + r) count) true, scale - 1) := by
  have hdiv : (q * count + r) / count = q := by
    rw [Nat.mul_comm, Nat.mul_add_div (by omega), Nat.div_eq_of_lt hcount, Nat.add_zero]
  have hmod : (q * count + r) % count = r := by
    rw [Nat.mul_comm, Nat.mul_add_mod, Nat.mod_eq_of_lt hcount]
  rw [divideFrom, if_neg hr, roundHalfEven, hdiv, hmod]
  split
  · rfl
  · rename_i hp
    rw [h] at hp
    cases hp

/-- A step with spare digits finds as many and goes on, unless they have outgrown their room. -/
theorem divideFrom_of_spare {q r p : ℕ} (hr : r ≠ 0)
    (h : spareDigits q (min 9 (maxScale - scale)) = p + 1) :
    divideFrom count q r scale =
      if q * tenTo (p + 1) + r * tenTo (p + 1) / count < limit then
        divideFrom count (q * tenTo (p + 1) + r * tenTo (p + 1) / count)
          (r * tenTo (p + 1) % count) (scale + (p + 1))
      else (dropLast (q * tenTo (p + 1) + r * tenTo (p + 1) / count)
        (r * tenTo (p + 1) % count == 0), scale + p) := by
  rw [divideFrom, if_neg hr]
  split
  · rename_i hp
    rw [h] at hp
    cases hp
  · rename_i hp
    obtain rfl := Nat.succ.inj (h.symm.trans hp)
    rfl

/-- Without its last digit a quotient of less than twice the limit fits. -/
theorem dropLast_lt {q : ℕ} {exact : Bool} (h : q < 2 * limit) : dropLast q exact < limit := by
  have htwo : limit = 2 ^ 96 := rfl
  unfold dropLast
  split_ifs <;> omega

/-! ### The error at the end -/

/-- Whether a coefficient and a scale fit and stand for a number, up to a small part of it and what
the 28th place cannot hold. -/
structure Approximates (p : ℕ × ℕ) (v : ℚ) : Prop where
  fits : p.1 < limit
  scale_le : p.2 ≤ maxScale
  error_le : |quotient p - v| ≤ v / 2 ^ 93 + 1 / 10 ^ 28

/-- What is exact approximates. -/
theorem Approximates.of_eq {p : ℕ × ℕ} {v : ℚ} (hfits : p.1 < limit) (hscale : p.2 ≤ maxScale)
    (h : quotient p = v) : Approximates p v := by
  refine ⟨hfits, hscale, ?_⟩
  have hv : 0 ≤ v := by
    rw [← h, quotient]
    positivity
  rw [h, sub_self, abs_zero]
  positivity

/-- What is left over is less than one unit of the quotient. -/
theorem div_count_bounds {r : ℕ} (hr : r < count) :
    (0 : ℚ) ≤ r / count ∧ (r : ℚ) / count < 1 := by
  have hcount : 0 < count := by omega
  have hcount : (0 : ℚ) < count := by exact_mod_cast hcount
  exact ⟨by positivity, (div_lt_one hcount).2 (by exact_mod_cast hr)⟩

/-- A digit too much is dropped, so the error counts in units of the place before it. -/
theorem approximates_dropLast {q : ℕ} {exact : Bool} {v : ℚ} (hq : q < 2 * limit)
    (hscale : scale ≤ maxScale) (hfull : 2 ^ 96 - 1 ≤ v)
    (h : |(10 * dropLast q exact : ℚ) - v| ≤ 7) :
    Approximates (dropLast q exact, scale) (v / 10 ^ (scale + 1)) := by
  refine ⟨dropLast_lt hq, hscale, ?_⟩
  have hvalue : quotient (dropLast q exact, scale) = 10 * dropLast q exact / 10 ^ (scale + 1) := by
    rw [pow_succ', mul_div_mul_left _ _ (by norm_num)]
    rfl
  rw [hvalue]
  exact (abs_div_sub_le h (by linarith) _).trans (le_add_of_nonneg_right (by positivity))

/-- A division that ends with a rounding, since there is no spare digit. The rounding costs half a
unit of the last place if the places are exhausted, and otherwise a unit of a coefficient that is
full. -/
theorem approximates_divideFrom_of_full {q r : ℕ} (hr0 : r ≠ 0) (hr : r < count) (hq : q < limit)
    (hscale : scale ≤ maxScale) (hlow : scale = 0 → 2 * q < limit)
    (hspare : spareDigits q (min 9 (maxScale - scale)) = 0) :
    Approximates (divideFrom count q r scale) (exactQuotient count q r scale) := by
  have hlimit : limit = 2 ^ 96 := rfl
  have hcount : (count : ℚ) ≠ 0 := by
    have hcount : count ≠ 0 := by omega
    exact_mod_cast hcount
  obtain ⟨hfraction, hone⟩ := div_count_bounds hr
  have hround : |(roundHalfEven (q * count + r) count : ℚ) - (q + r / count)| ≤ 1 / 2 := by
    have hhalf := abs_roundHalfEven_sub_le (n := q * count + r) (by omega : 0 < count)
    rwa [Nat.cast_add, Nat.cast_mul, add_div, mul_div_cancel_right₀ _ hcount] at hhalf
  rw [divideFrom_of_full hr0 hr hspare]
  generalize roundHalfEven (q * count + r) count = rounded at hround
  split_ifs with hroom
  · refine ⟨hroom, hscale, ?_⟩
    change |(rounded : ℚ) / 10 ^ scale - (q + r / count) / 10 ^ scale|
      ≤ (q + r / count) / 10 ^ scale / 2 ^ 93 + 1 / 10 ^ 28
    -- No digit more is spared because the scale is the last one, or because the coefficient is
    -- full.
    obtain hlast | hfull := full_of_spareDigits_eq_zero hspare
    · obtain rfl : scale = 28 := by
        have hmax : maxScale = 28 := rfl
        omega
      have hpart : (0 : ℚ) ≤ (q + r / count) / 10 ^ 28 / 2 ^ 93 := by positivity
      rw [← sub_div, abs_div, abs_of_pos (by positivity : (0 : ℚ) < 10 ^ 28)]
      linarith
    · have hfull : (2 : ℚ) ^ 96 ≤ 10 * q := by exact_mod_cast hfull
      exact (abs_div_sub_le hround (by linarith) scale).trans
        (le_add_of_nonneg_right (by positivity))
  · -- The greatest coefficient was rounded up, which cannot happen before there are places.
    obtain ⟨hlow', hhigh'⟩ := abs_le.1 hround
    have hmost : (rounded : ℚ) < q + 2 := by linarith
    have hmost : rounded < q + 2 := by exact_mod_cast hmost
    have hfull : (2 : ℚ) ^ 96 ≤ rounded := by exact_mod_cast not_lt.1 hroom
    obtain ⟨before, rfl⟩ : ∃ before, scale = before + 1 := ⟨scale - 1, by omega⟩
    refine approximates_dropLast (by omega) (by omega) (by linarith) ?_
    have hdigit := abs_dropLast_sub_le rounded true le_rfl one_pos
    rw [add_zero] at hdigit
    have htriangle := abs_sub_le (10 * dropLast rounded true : ℚ) rounded (q + r / count)
    linarith

/-- A division that has come to `q` with `r` left. At scale zero there are digits to come, so `q`
must be far from full there. -/
theorem approximates_divideFrom {q r : ℕ} (hr : r < count) (hq : q < limit)
    (hscale : scale ≤ maxScale) (hlow : scale = 0 → 2 * q < limit) :
    Approximates (divideFrom count q r scale) (exactQuotient count q r scale) := by
  have hcount : 0 < count := by omega
  induction q, r, scale using divideFrom.induct count with
  | case1 q scale =>
    have hdone : divideFrom count q 0 scale = (q, scale) := by rw [divideFrom, if_pos rfl]
    rw [hdone]
    exact .of_eq hq hscale (by simp [quotient, exactQuotient])
  | case2 q r scale hr0 hspare | case3 q r scale hr0 hspare =>
    exact approximates_divideFrom_of_full hr0 hr hq hscale hlow hspare
  | case4 q r scale hr0 p hspare rest q' hroom ih =>
    have hp : p + 1 ≤ min 9 (maxScale - scale) := hspare.symm.le.trans (spareDigits_le _ _)
    have hstep := exactQuotient_step (q := q) (r := r) hcount (p + 1) scale
    rw [divideFrom_of_spare hr0 hspare, if_pos hroom, ← hstep]
    exact ih (Nat.mod_lt _ hcount) hroom (by omega) (by omega)
  | case5 q r scale hr0 p hspare rest q' hroom =>
    have hp : p + 1 ≤ min 9 (maxScale - scale) := hspare.symm.le.trans (spareDigits_le _ _)
    have hstep := exactQuotient_step (q := q) (r := r) hcount (p + 1) scale
    have hr' := Nat.mod_lt (r * tenTo (p + 1)) hcount
    -- Only the digits that are found can go beyond the limit, and they are fewer than it.
    have hq' : q * tenTo (p + 1) + r * tenTo (p + 1) / count < 2 * limit := by
      have hfits := spareDigits_fits hspare
      have hmany : tenTo (p + 1) ≤ tenTo 9 := Nat.pow_le_pow_right (by decide) (by omega)
      have hdigits : r * tenTo (p + 1) / count ≤ tenTo (p + 1) :=
        Nat.div_le_of_le_mul (Nat.mul_le_mul_right _ hr.le)
      have hsmall : tenTo 9 ≤ limit := by decide
      omega
    have hfull : limit ≤ q * tenTo (p + 1) + r * tenTo (p + 1) / count := not_lt.1 hroom
    rw [divideFrom_of_spare hr0 hspare, if_neg hroom, ← hstep]
    generalize r * tenTo (p + 1) % count = r' at hr'
    generalize q * tenTo (p + 1) + r * tenTo (p + 1) / count = quotient at hq' hfull
    obtain ⟨hfraction, hone⟩ := div_count_bounds hr'
    have hfull : (2 : ℚ) ^ 96 ≤ quotient := by exact_mod_cast hfull
    have hdigit := abs_dropLast_sub_le quotient (r' == 0) hfraction hone
    exact approximates_dropLast hq' (by omega) (by linarith) (by linarith)

/-! ### Dropping zeros -/

/-- Zeros that are dropped do not change the value. -/
theorem quotient_dropPower (power digits : ℕ) (p : ℕ × ℕ) :
    quotient (dropPower power digits p) = quotient p ∧ (dropPower power digits p).1 ≤ p.1 ∧
      (dropPower power digits p).2 ≤ p.2 := by
  unfold dropPower
  split_ifs with hzeros
  · obtain ⟨-, hplaces, hzeros⟩ := hzeros
    refine ⟨?_, Nat.div_le_self _ _, Nat.sub_le _ _⟩
    have hten : (10 : ℚ) ^ digits ≠ 0 := by positivity
    have hwhole : (p.1 : ℚ) = (p.1 / tenTo digits : ℕ) * 10 ^ digits := by
      rw [← cast_tenTo_eq]
      exact_mod_cast (Nat.div_mul_cancel (Nat.dvd_of_mod_eq_zero hzeros)).symm
    have hscale : (10 : ℚ) ^ p.2 = 10 ^ (p.2 - digits) * 10 ^ digits := by
      rw [← pow_add, Nat.sub_add_cancel hplaces]
    rw [quotient, quotient, hscale, hwhole, mul_div_mul_right _ _ hten]
  · exact ⟨rfl, le_rfl, le_rfl⟩

/-- An approximation stays one when a power of ten is divided out. -/
theorem Approximates.dropPower {p : ℕ × ℕ} {v : ℚ} (h : Approximates p v) (power digits : ℕ) :
    Approximates (dropPower power digits p) v := by
  obtain ⟨hvalue, hle, hscale⟩ := quotient_dropPower power digits p
  exact ⟨hle.trans_lt h.fits, hscale.trans h.scale_le, hvalue ▸ h.error_le⟩

/-- An approximation stays one when its zeros are dropped. -/
theorem Approximates.dropZeroRuns {p : ℕ × ℕ} {v : ℚ} (h : Approximates p v) :
    Approximates (dropZeroRuns p) v := by
  unfold Decimal.dropZeroRuns
  exact (((((h.dropPower _ _).dropPower _ _).dropPower _ _).dropPower _ _).dropPower _ _).dropPower
    _ _

/-! ### The quotient -/

/-- A multiple of the count is divided exactly. -/
theorem divide_mul {c : ℤ} (hcount : 0 < count) (h : c ≠ 0 ∨ scale = 0) :
    ({ coefficient := count * c, scale } : Decimal).divide count = { coefficient := c, scale } := by
  have habs : (count * c).natAbs = count * c.natAbs := by rw [Int.natAbs_mul, Int.natAbs_natCast]
  have hsign : count * c < 0 ↔ c < 0 := by
    have hcount : (0 : ℤ) < count := by exact_mod_cast hcount
    exact ⟨fun hneg => neg_of_mul_neg_right hneg hcount.le, mul_neg_of_pos_of_neg hcount⟩
  unfold divide
  dsimp only
  simp only [habs, hsign]
  split_ifs with hzero hexact
  · obtain rfl : c = 0 := by
      rcases Nat.mul_eq_zero.1 hzero with hnone | hnone <;> omega
    obtain hne | rfl := h
    · exact absurd rfl hne
    · rfl
  · rw [Nat.mul_div_cancel_left _ hcount, signed_natAbs]
  · exact absurd (Nat.mul_mod_right _ _) hexact

/-- What comes of a division before the sign is put back. A quotient that is whole is exact, and any
other one is approximated digit by digit, after which its zeros are dropped. -/
theorem exists_divide_eq (hd : d.Fits) (hcount : 0 < count) : ∃ p : ℕ × ℕ,
    Approximates p (d.coefficient.natAbs / (10 ^ d.scale * count)) ∧
      d.divide count = { coefficient := signed (d.coefficient < 0) p.1, scale := p.2 } := by
  obtain ⟨hn, hscale⟩ := hd
  unfold divide
  dsimp only
  generalize hneg : decide (d.coefficient < 0) = negative
  generalize d.coefficient.natAbs = n at hn
  have hvalue : exactQuotient count (n / count) (n % count) d.scale
      = n / (10 ^ d.scale * count) := by
    rw [exactQuotient, div_add_mod_div hcount, div_div, mul_comm]
  split_ifs with hzero hexact
  · refine ⟨(0, 0), .of_eq (by decide) (by decide) (by simp [hzero, quotient]), ?_⟩
    cases negative <;> rfl
  · refine ⟨(n / count, d.scale), .of_eq ((Nat.div_le_self _ _).trans_lt hn) hscale ?_, rfl⟩
    rw [← hvalue, hexact]
    simp [quotient, exactQuotient]
  · refine ⟨_, ?_, rfl⟩
    rw [← hvalue]
    refine (approximates_divideFrom (Nat.mod_lt _ hcount) ((Nat.div_le_self _ _).trans_lt hn) hscale
      fun _ => ?_).dropZeroRuns
    -- The quotient is not whole, so the count is two or more.
    have htwo : 2 ≤ count := by
      by_contra hone
      obtain rfl : count = 1 := by omega
      exact hexact (Nat.mod_one n)
    have hhalf : n / count ≤ n / 2 := Nat.div_le_div_left htwo two_pos
    omega

/-- A decimal divided by a count is off by a small part, and by what the 28th place cannot hold. -/
theorem abs_divide_sub_le (hd : d.Fits) (hcount : 0 < count) : (d.divide count).Fits ∧
    |(d.divide count).value - d.value / count| ≤ |d.value / count| / 2 ^ 93 + 1 / 10 ^ 28 := by
  obtain ⟨p, hp, heq⟩ := exists_divide_eq hd hcount
  have hvalue : d.value / count = d.coefficient / (10 ^ d.scale * count) := div_div _ _ _
  have hpos : (0 : ℚ) < 10 ^ d.scale * count := by
    have hcount : (0 : ℚ) < count := by exact_mod_cast hcount
    positivity
  rw [heq]
  refine ⟨⟨(natAbs_signed _ _).trans_lt hp.fits, hp.scale_le⟩, ?_⟩
  rw [hvalue, abs_value_signed_sub, abs_div, abs_of_pos hpos, ← Int.cast_abs, ← Nat.cast_natAbs]
  exact hp.error_le

end Roster.Decimal
