import Mathlib.Tactic.FieldSimp
import Mathlib.Tactic.Linarith
import Mathlib.Tactic.Positivity
import Roster.Decimal.Arithmetic
import Roster.Proofs.Number.Rounding

/-!
# `Roster.Proofs.Decimal.Adding`: which sums of decimals are exact

The value of a decimal is a rational number, and several decimals have the same one. An addition
goes by the scales of its operands and not by their values: both are brought to the greater of
the two scales, and if the sum has no room there, it is rounded. So what is known of the values
has to say something about the scales. The bridge is `IsReduced.scale_le`: a decimal without zeros
at the end has no more places than any way to write its value.

The main result is `exists_add?`: a sum is exact if there is room for it at some scale that is at
least that of both operands.
-/

set_option autoImplicit false

namespace Roster.Decimal

variable {d x y : Decimal} {places : ℕ} {r s : ℚ}

/-! ### Values -/

/-- The number that a decimal stands for. -/
def value (d : Decimal) : ℚ := d.coefficient / 10 ^ d.scale

/-- The decimal zero stands for zero. -/
@[simp] theorem value_zero : zero.value = 0 := by simp [value, zero]

/-- The absolute value of a decimal is that of its coefficient. -/
theorem abs_value_eq (d : Decimal) : |d.value| = d.coefficient.natAbs / 10 ^ d.scale := by
  rw [value, abs_div, abs_of_pos (by positivity : (0 : ℚ) < 10 ^ d.scale), Nat.cast_natAbs,
    Int.cast_abs]

/-- A decimal has the sign of its coefficient. -/
theorem coefficient_neg_iff (d : Decimal) : d.coefficient < 0 ↔ d.value < 0 := by
  have hten : (0 : ℚ) < 10 ^ d.scale := by positivity
  rw [value, div_lt_iff₀ hten, zero_mul]
  exact Int.cast_lt_zero.symm

/-- Whether a number can be written with so many places after the point. -/
def HasPlaces (places : ℕ) (r : ℚ) : Prop := ∃ n : ℤ, r * 10 ^ places = n

/-- Whether a decimal has no zero at the end of its places. -/
def IsReduced (d : Decimal) : Prop := d.scale = 0 ∨ d.coefficient % 10 ≠ 0

/-- A decimal without zeros at the end has no more places than its value needs. -/
theorem IsReduced.scale_le (h : d.IsReduced) (hplaces : HasPlaces places d.value) :
    d.scale ≤ places := by
  by_contra! hlt
  obtain ⟨n, hn⟩ := hplaces
  have hscale : (10 : ℚ) ^ d.scale = 10 ^ places * 10 ^ (d.scale - places) := by
    rw [← pow_add, Nat.add_sub_cancel' hlt.le]
  have hvalue : (d.coefficient : ℚ) = n * 10 ^ (d.scale - places) := by
    rw [← hn, mul_assoc, ← hscale]
    unfold value
    field_simp
  have hwhole : d.coefficient = n * 10 ^ (d.scale - places) := by exact_mod_cast hvalue
  -- There is a place too much, so the coefficient is divisible by ten.
  obtain ⟨k, hk⟩ : ∃ k, d.scale - places = k + 1 := ⟨d.scale - places - 1, by omega⟩
  rw [hk, pow_succ, ← mul_assoc] at hwhole
  rcases h with hzero | hdigit
  · omega
  · exact hdigit (hwhole ▸ Int.mul_emod_left _ _)

/-- Nor is its coefficient greater than that of any way to write its absolute value. -/
theorem IsReduced.natAbs_le {n : ℕ} (h : d.IsReduced) (hvalue : |d.value| = n / 10 ^ places) :
    d.scale ≤ places ∧ d.coefficient.natAbs ≤ n := by
  have hten : (10 : ℚ) ^ places ≠ 0 := by positivity
  have hplaces : HasPlaces places d.value := by
    rcases (abs_eq (by positivity)).1 hvalue with heq | heq
    · exact ⟨n, by rw [heq, div_mul_cancel₀ _ hten, Int.cast_natCast]⟩
    · exact ⟨-n, by rw [heq, neg_mul, div_mul_cancel₀ _ hten, Int.cast_neg, Int.cast_natCast]⟩
  have hscale := h.scale_le hplaces
  have hpower : (10 : ℚ) ^ d.scale ≤ 10 ^ places := pow_le_pow_right₀ (by norm_num) hscale
  have hten : (0 : ℚ) < 10 ^ d.scale := by positivity
  rw [abs_value_eq, div_eq_iff hten.ne', div_mul_eq_mul_div] at hvalue
  have hless : (d.coefficient.natAbs : ℚ) ≤ n := by
    rw [hvalue]
    exact div_le_of_le_mul₀ (by positivity) (by positivity) (by gcongr)
  exact ⟨hscale, by exact_mod_cast hless⟩

/-! ### Addition -/

/-- The coefficients that fit are those of 96 bits. -/
theorem limit_eq : limit = 2 ^ 96 := rfl

/-- A decimal is brought to a greater scale without a loss. -/
theorem atScale_eq (h : d.scale ≤ places) : (d.atScale places : ℚ) = d.value * 10 ^ places := by
  have hscale : (10 : ℚ) ^ places = 10 ^ (places - d.scale) * 10 ^ d.scale := by
    rw [← pow_add, Nat.sub_add_cancel h]
  have htens : ((tenTo (places - d.scale) : ℕ) : ℚ) = 10 ^ (places - d.scale) := by
    simp [tenTo]
  unfold atScale value
  push_cast
  rw [htens, hscale]
  field_simp

/-- Brought to the same scale, the coefficients of two decimals add up to that of the sum. -/
theorem atScale_add_eq (hx : x.scale ≤ places) (hy : y.scale ≤ places) :
    ((x.atScale places + y.atScale places : ℤ) : ℚ) = (x.value + y.value) * 10 ^ places := by
  rw [Int.cast_add, atScale_eq hx, atScale_eq hy, add_mul]

/-- A coefficient is put together again from its sign and its absolute value. -/
theorem signed_natAbs (i : ℤ) : signed (i < 0) i.natAbs = i := by
  unfold signed
  split <;> rename_i hneg <;> rw [decide_eq_true_iff] at hneg <;> omega

/-- A sign does not change the absolute value. -/
theorem natAbs_signed (negative : Bool) (n : ℕ) : (signed negative n).natAbs = n := by
  cases negative <;> simp [signed]

/-- A total that fits is kept as it is. -/
theorem fit?_of_lt {total : ℤ} (scale : ℕ) (h : total.natAbs < limit) :
    fit? total scale 0 = some { coefficient := total, scale } := by
  have hround : roundHalfEven total.natAbs (tenTo 0) = total.natAbs := by
    simp [roundHalfEven, tenTo, Nat.mod_one]
  unfold fit?
  rw [hround, if_pos h, signed_natAbs]

/-- Coefficients at the same scale are added as they are. -/
theorem add?_of_same_scale {i j : ℤ} (scale : ℕ) (hroom : (i + j).natAbs < limit) :
    add? { coefficient := i, scale } { coefficient := j, scale }
      = some { coefficient := i + j, scale } := by
  unfold add?
  split_ifs with hi hj
  · rw [show i = 0 from hi, zero_add]
  · rw [show j = 0 from hj, add_zero]
  · have htens : tenTo 0 = 1 := rfl
    simp only [atScale, max_self, Nat.sub_self, htens, Nat.cast_one, mul_one]
    exact fit?_of_lt scale hroom

/-- A sum is exact if there is room for it at a scale that both operands have room at. A zero gives
the other operand back. Otherwise both are brought to the greater of their scales, so the sum is the
exact one and only has to fit. -/
theorem exists_add? (hx : x.scale ≤ places) (hy : y.scale ≤ places)
    (hroom : |x.value + y.value| * 10 ^ places < 2 ^ 96) :
    ∃ d, x.add? y = some d ∧ d.value = x.value + y.value ∧ d.scale ≤ max x.scale y.scale := by
  unfold add?
  split_ifs with hxzero hyzero
  · exact ⟨y, rfl, by simp [value, hxzero], le_max_right _ _⟩
  · exact ⟨x, rfl, by simp [value, hyzero], le_max_left _ _⟩
  · generalize hscale : max x.scale y.scale = scale
    have hle : scale ≤ places := hscale ▸ max_le hx hy
    -- At the greater scale both coefficients are whole, so the sum of them is exact.
    have htotal := atScale_add_eq (x := x) (y := y) (hscale ▸ le_max_left _ _)
      (hscale ▸ le_max_right _ _)
    dsimp only
    generalize x.atScale scale + y.atScale scale = total at htotal ⊢
    -- The scale is at most `places`, where there is room by hypothesis.
    have hfits : total.natAbs < limit := by
      have hsize : |(total : ℚ)| < 2 ^ 96 := by
        calc |(total : ℚ)| = |x.value + y.value| * 10 ^ scale := by
              rw [htotal, abs_mul, abs_of_pos (by positivity : (0 : ℚ) < 10 ^ scale)]
          _ ≤ |x.value + y.value| * 10 ^ places := by
              gcongr
              norm_num
          _ < 2 ^ 96 := hroom
      rw [← Int.cast_abs, Int.abs_eq_natAbs] at hsize
      rw [limit_eq]
      exact_mod_cast hsize
    refine ⟨_, fit?_of_lt scale hfits, ?_, le_rfl⟩
    calc (total : ℚ) / 10 ^ scale = (x.value + y.value) * 10 ^ scale / 10 ^ scale := by rw [htotal]
      _ = x.value + y.value := mul_div_cancel_right₀ _ (by positivity)

end Roster.Decimal
