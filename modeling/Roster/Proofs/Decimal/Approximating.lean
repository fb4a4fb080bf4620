import Roster.Proofs.Decimal.Converting
import Roster.Proofs.Decimal.Returning

/-!
# `Roster.Proofs.Decimal.Approximating`: how far a decimal is from the double

Where nothing is known of a double, its decimal is only near to it. The main result is
`abs_ofDouble?_sub_le`: the decimal fits, and it is off by at most a part `1 / 2 ^ 49` of the double
and two units of the 28th place. Every double of less than `2 ^ 96` has one
(`exists_ofDouble?_of_lt`).

The part comes from the digits that are dropped until 52 bits are left. The errors of these steps
add up, since each of them rounds what the step before has rounded; but the last one is the greatest
by far, and all together they stay below `5 / 9` of the last unit (`toDoublePrecision_bounds`). The
bounds of both functions that drop digits leave out as much as the digits not yet dropped can cost.
This is what makes them invariants of the steps.
-/

set_option autoImplicit false

namespace Roster.Decimal

variable {d : Decimal} {m steps scale : ℕ}

/-! ### Dropping digits -/

/-- A coefficient and a scale without a sign stand for no negative number. -/
theorem quotient_nonneg (d : ℕ × ℕ) : 0 ≤ quotient d := by
  unfold quotient
  positivity

/-- Dropping a digit makes no coefficient greater. -/
theorem dropDigit_le (m : ℕ) : dropDigit m ≤ m := by
  unfold dropDigit
  split <;> omega

/-- A unit of the next place. -/
theorem unit_succ (scale : ℕ) : (1 : ℚ) / 10 ^ (scale + 1) = 1 / 10 ^ scale / 10 := by
  rw [pow_succ, div_div]

/-- What comes of a number whose last digit is dropped first. The digit costs half a unit of the
place before it at most. -/
theorem abs_sub_le_of_dropDigit {p : ℕ × ℕ} {error : ℚ}
    (h : |quotient p - quotient (dropDigit m, scale)| ≤ error) :
    |quotient p - quotient (m, scale + 1)| ≤ error + 1 / 10 ^ scale / 2 := by
  obtain ⟨hlow, hhigh⟩ := dropDigit_bounds m
  have hlow : (10 * dropDigit m : ℚ) ≤ m + 5 := by exact_mod_cast hlow
  have hhigh : (m : ℚ) ≤ 10 * dropDigit m + 4 := by exact_mod_cast hhigh
  have hdifference : quotient (dropDigit m, scale) - quotient (m, scale + 1)
      = (dropDigit m - m / 10) / 10 ^ scale := by
    rw [quotient, quotient, pow_succ', ← div_div, ← sub_div]
  have hten : (0 : ℚ) < 10 ^ scale := by positivity
  have hdigit : |quotient (dropDigit m, scale) - quotient (m, scale + 1)| ≤ 1 / 10 ^ scale / 2 := by
    rw [hdifference, abs_div, abs_of_pos hten, div_right_comm]
    gcongr
    exact abs_le.2 ⟨by linarith, by linarith⟩
  exact (abs_sub_le _ _ _).trans (add_le_add h hdigit)

/-- Dropping digits down to the greatest scale costs at most one unit of it. The bound leaves out a
unit of the scale that is left behind, which is what makes it an invariant. -/
theorem abs_toMaxScale_sub_le (h : maxScale < scale) (m : ℕ) :
    |quotient (toMaxScale scale m) - quotient (m, scale)| ≤ 1 / 10 ^ 28 - 1 / 10 ^ scale := by
  induction scale generalizing m with
  | zero => exact absurd h (Nat.not_lt_zero _)
  | succ scale ih =>
    have hscale : 28 ≤ scale := Nat.le_of_lt_succ h
    have hunit : (0 : ℚ) < 1 / 10 ^ scale := by positivity
    have hmost : (1 : ℚ) / 10 ^ scale ≤ 1 / 10 ^ 28 := by
      gcongr
      norm_num
    rw [toMaxScale, if_neg (not_le.2 h), unit_succ scale]
    split_ifs with hzero
    · -- A single digit so far behind the point is dropped altogether.
      have hdigit : (m : ℚ) ≤ 9 := by
        have hdigit : m ≤ 9 := by omega
        exact_mod_cast hdigit
      have hvalue : quotient (m, scale + 1) = m * (1 / 10 ^ scale / 10) := by
        rw [← unit_succ scale, mul_one_div]
        rfl
      have hnone : quotient (0, 0) = 0 := by simp [quotient]
      rw [hnone, zero_sub, abs_neg, abs_of_nonneg (quotient_nonneg _), hvalue]
      have hpart : m * ((1 : ℚ) / 10 ^ scale / 10) ≤ 9 * (1 / 10 ^ scale / 10) := by gcongr
      linarith
    · -- At scale 29 a single digit is dropped. From further behind the bound for the rest leaves
      -- room for one more.
      rcases hscale.eq_or_lt with hlast | hmore
      · have hkept : toMaxScale scale (dropDigit m) = (dropDigit m, scale) :=
          toMaxScale_of_le hlast.ge
        have hunit28 : (1 : ℚ) / 10 ^ scale = 1 / 10 ^ 28 := by rw [← hlast]
        have hdigit : |quotient (dropDigit m, scale) - quotient (m, scale + 1)|
            ≤ 0 + 1 / 10 ^ scale / 2 :=
          abs_sub_le_of_dropDigit (by rw [sub_self, abs_zero])
        rw [hkept]
        linarith
      · have hrest := abs_sub_le_of_dropDigit (ih hmore (dropDigit m))
        linarith

/-- What is left fits where the number did, and has no place too many. -/
theorem toMaxScale_le (scale m : ℕ) :
    (toMaxScale scale m).1 ≤ m ∧ (toMaxScale scale m).2 ≤ maxScale := by
  induction scale generalizing m with
  | zero => exact ⟨le_rfl, Nat.zero_le _⟩
  | succ scale ih =>
    rw [toMaxScale]
    split_ifs with hle hzero
    · exact ⟨le_rfl, hle⟩
    · exact ⟨Nat.zero_le _, Nat.zero_le _⟩
    · exact ⟨(ih _).1.trans (dropDigit_le m), (ih _).2⟩

/-- What dropping digits down to 52 bits arrives at: less than `5 / 9` of the last unit away, and
still of almost 52 bits, unless nothing was dropped. -/
theorem toDoublePrecision_bounds (scale m : ℕ) :
    (toDoublePrecision scale m).1 ≤ m ∧ (toDoublePrecision scale m).2 ≤ scale ∧
      (toDoublePrecision scale m = (m, scale) ∨ 2 ^ 52 ≤ 10 * (toDoublePrecision scale m).1 + 4) ∧
      |quotient (toDoublePrecision scale m) - quotient (m, scale)|
        ≤ 5 / 9 * (1 / 10 ^ (toDoublePrecision scale m).2 - 1 / 10 ^ scale) := by
  induction scale generalizing m with
  | zero => simp [toDoublePrecision]
  | succ scale ih =>
    rw [toDoublePrecision]
    split_ifs with hroom
    · simp
    · obtain ⟨hle, hscale, hdropped, herror⟩ := ih (dropDigit m)
      refine ⟨hle.trans (dropDigit_le m), by omega, .inr ?_, ?_⟩
      · -- If no other digit is dropped, this one was dropped from more than 52 bits.
        obtain heq | hmore := hdropped
        · have hdigit := (dropDigit_bounds m).2
          have htwo : twoTo 52 = 2 ^ 52 := rfl
          rw [heq]
          dsimp only
          omega
        · exact hmore
      · have hrest := abs_sub_le_of_dropDigit herror
        rw [unit_succ scale]
        linarith

/-- The same as a part of the number. Where digits have been dropped, what is left still has almost
52 bits, so the last unit is a small part of it. -/
theorem abs_toDoublePrecision_sub_le (scale m : ℕ) :
    |quotient (toDoublePrecision scale m) - quotient (m, scale)|
      ≤ quotient (m, scale) * (6 / 2 ^ 52) := by
  obtain ⟨-, -, hdropped, herror⟩ := toDoublePrecision_bounds scale m
  have hvalue := quotient_nonneg (m, scale)
  obtain heq | hmore := hdropped
  · rw [heq, sub_self, abs_zero]
    positivity
  · -- The last unit is about ten parts in `2 ^ 52`, and five ninths of it are lost.
    generalize toDoublePrecision scale m = p at hmore herror ⊢
    have hunit : (0 : ℚ) < 1 / 10 ^ p.2 := by positivity
    have hmore : (2 : ℚ) ^ 52 ≤ 10 * p.1 + 4 := by exact_mod_cast hmore
    have hleft : (2 ^ 52 - 4) / 10 * (1 / 10 ^ p.2) ≤ quotient p := by
      have hquotient : quotient p = p.1 * (1 / 10 ^ p.2) := (mul_one_div _ _).symm
      rw [hquotient]
      gcongr
      linarith
    have hless : (0 : ℚ) < 1 / 10 ^ scale := by positivity
    have hlow := (abs_le.1 herror).2
    linarith

/-! ### The strokes together -/

/-- Dropping zeros makes neither the coefficient nor the scale greater. -/
theorem dropZeros_le (scale m : ℕ) :
    (dropZeros scale m).1 ≤ m ∧ (dropZeros scale m).2 ≤ scale := by
  induction scale generalizing m with
  | zero => exact ⟨le_rfl, le_rfl⟩
  | succ scale ih =>
    rw [dropZeros]
    split_ifs
    · exact ⟨(ih _).1.trans (Nat.div_le_self _ _), (ih _).2.trans (Nat.le_succ _)⟩
    · exact ⟨le_rfl, le_rfl⟩

/-- A coefficient of 96 bits still has room after all three strokes. Each stroke only drops digits,
so neither the coefficient nor the scale grows. -/
theorem normalize_fits (negative : Bool) (hm : m < limit) (scale : ℕ) :
    (normalize negative m scale).Fits := by
  obtain ⟨hmax, hscale⟩ := toMaxScale_le scale m
  generalize hp : toMaxScale scale m = p at hmax hscale
  obtain ⟨hprecision, hscale', -⟩ := toDoublePrecision_bounds p.2 p.1
  generalize hp' : toDoublePrecision p.2 p.1 = p' at hprecision hscale'
  obtain ⟨hzeros, hscale''⟩ := dropZeros_le p'.2 p'.1
  have heq : normalize negative m scale =
      { coefficient := signed negative (dropZeros p'.2 p'.1).1,
        scale := (dropZeros p'.2 p'.1).2 } := by
    -- Only zeros and digits are dropped, so each stroke makes the coefficient and the scale
    -- smaller.
    rw [normalize, hp]
    dsimp only
    rw [hp']
  rw [heq]
  refine ⟨?_, hscale''.trans (hscale'.trans hscale)⟩
  dsimp only
  rw [natAbs_signed]
  exact hzeros.trans_lt (hprecision.trans_lt (hmax.trans_lt hm))

/-- The three strokes together: the places that are lost cost units of the 28th, and the bits that
are lost a part of the number. -/
theorem abs_normalize_sub_le (negative : Bool) (m scale : ℕ) :
    |(normalize negative m scale).value - withSign negative (quotient (m, scale))|
      ≤ quotient (m, scale) * (6 / 2 ^ 52) + 2 / 10 ^ 28 := by
  rw [normalize_value, abs_withSign_sub]
  have hmax : |quotient (toMaxScale scale m) - quotient (m, scale)| ≤ 1 / 10 ^ 28 := by
    rcases le_or_gt scale maxScale with hle | hmore
    · rw [toMaxScale_of_le hle, sub_self, abs_zero]
      positivity
    · exact (abs_toMaxScale_sub_le hmore m).trans (sub_le_self _ (by positivity))
  have hprecision := abs_toDoublePrecision_sub_le (toMaxScale scale m).2 (toMaxScale scale m).1
  have htriangle := abs_sub_le
    (quotient (toDoublePrecision (toMaxScale scale m).2 (toMaxScale scale m).1))
    (quotient (toMaxScale scale m)) (quotient (m, scale))
  have hhigh := (abs_le.1 hmax).2
  linarith

/-! ### Conversion -/

/-- Trading twos for tens keeps within the room that it looks for. -/
theorem overTwos_lt (hm : m < limit) : (overTwos steps m scale).1 < limit := by
  induction steps, m, scale using overTwos.induct with
  | case1 m scale => exact hm
  | case2 steps m scale heven ih =>
    rw [overTwos, if_pos heven]
    exact ih ((Nat.div_le_self _ _).trans_lt hm)
  | case3 steps m scale hodd hroom ih =>
    rw [overTwos, if_neg hodd, if_pos hroom]
    exact ih hroom
  | case4 steps m scale hodd hfull ih =>
    rw [overTwos, if_neg hodd, if_neg hfull]
    exact ih ((Nat.div_le_self _ _).trans_lt hm)

/-- The exact value of a double with binary places, up to what is lost when these are traded. -/
theorem abs_overTwos_sub_le {x : Double} (hexponent : x.exponent < 0) :
    |quotient (overTwos (-x.exponent).toNat x.significand (-x.exponent).toNat) - x.absValue|
      ≤ x.absValue / 2 ^ 83 := by
  have hsteps : (-x.exponent).toNat ≤ 1074 := by
    have := x.le_exponent
    omega
  obtain ⟨hless, hloss⟩ := overTwos_bounds (m := x.significand) (le_refl (-x.exponent).toNat)
  rw [← Double.absValue_eq hexponent] at hless hloss
  have hvalue : 0 ≤ x.absValue := mul_nonneg (Nat.cast_nonneg _) (by positivity)
  have hkept := mul_le_mul_of_nonneg_left (le_kept hsteps) hvalue
  exact abs_le.2 ⟨by linarith, by linarith⟩

/-- The value of a double by its absolute value. -/
theorem value_eq_withSign (x : Double) : x.value = withSign x.negative x.absValue := by
  unfold Double.value withSign
  cases x.negative with
  | false => exact one_mul _
  | true => exact neg_one_mul _

/-- A double with binary places becomes a decimal that is off by a little more than half a unit of
52 bits, and by what the 28th place cannot hold. -/
theorem abs_normalize_overTwos_sub_le {x : Double} (hexponent : x.exponent < 0)
    (h : overTwos (-x.exponent).toNat x.significand (-x.exponent).toNat = (m, scale)) :
    (normalize x.negative m scale).Fits ∧
      |(normalize x.negative m scale).value - x.value| ≤ |x.value| / 2 ^ 49 + 2 / 10 ^ 28 := by
  have hfits : (m, scale).1 < limit := h ▸ overTwos_lt (x.significand_lt.trans (by decide))
  have habs : |x.value| = x.absValue := x.abs_value
  have hvalue : 0 ≤ x.absValue := habs ▸ abs_nonneg _
  have htrade := abs_overTwos_sub_le hexponent
  rw [h] at htrade
  have hhigh := (abs_le.1 htrade).2
  rw [← abs_withSign_sub x.negative] at htrade
  have hround := abs_normalize_sub_le x.negative m scale
  have htriangle := abs_sub_le (normalize x.negative m scale).value
    (withSign x.negative (quotient (m, scale))) (withSign x.negative x.absValue)
  refine ⟨normalize_fits _ hfits _, ?_⟩
  rw [habs, value_eq_withSign]
  linarith

/-- A double without binary places has a decimal only if 96 bits have room for it. -/
theorem timesTwos_eq_some {p : ℕ × ℕ} (h : timesTwos steps m steps = some p) :
    p = (m * 2 ^ steps, 0) ∧ (steps = 0 ∨ m * 2 ^ steps < 2 ^ 96) := by
  induction steps generalizing m with
  | zero =>
    cases h
    exact ⟨by rw [pow_zero, Nat.mul_one], .inl rfl⟩
  | succ steps ih =>
    rw [timesTwos] at h
    have hpower : m * 2 ^ (steps + 1) = 2 * m * 2 ^ steps := by ring
    split_ifs at h with hroom hfew
    · obtain ⟨hp, hlt⟩ := ih h
      refine ⟨hpower ▸ hp, .inr ?_⟩
      obtain rfl | hlt := hlt
      · have htwo : twoTo 95 = 2 ^ 95 := rfl
        omega
      · exact hpower ▸ hlt
    · omega

/-- The value of a double without binary places. -/
theorem value_of_exponent {x : Double} {twos : ℕ} (h : x.exponent = twos) :
    x.value = (signed x.negative (x.significand * 2 ^ twos) : ℤ) := by
  rw [cast_signed, Double.value, h, zpow_natCast]
  push_cast
  rfl

/-- The decimal of a double is off by little, and it fits. A double with binary places is rounded by
the strokes, and a whole number that has room is converted exactly. -/
theorem abs_ofDouble?_sub_le {x : Double} (h : ofDouble? x = some d) :
    d.Fits ∧ |d.value - x.value| ≤ |x.value| / 2 ^ 49 + 2 / 10 ^ 28 := by
  unfold ofDouble? at h
  split_ifs at h with hfinite hzero hexponent
  · cases h
    refine ⟨by decide, ?_⟩
    rw [value_zero, Double.value_eq_zero hzero]
    norm_num
  · cases h
    exact abs_normalize_overTwos_sub_le hexponent rfl
  · -- A whole number is converted exactly, if it is converted at all.
    obtain ⟨twos, htwos⟩ := Int.eq_ofNat_of_zero_le (not_lt.1 hexponent)
    rw [htwos, Int.toNat_natCast] at h
    obtain ⟨p, hp, h⟩ := Option.bind_eq_some_iff.1 h
    obtain ⟨rfl, hroom⟩ := timesTwos_eq_some hp
    cases h
    have hlt : x.significand * 2 ^ twos < limit := by
      obtain rfl | hlt := hroom
      · rw [pow_zero, Nat.mul_one]
        exact x.significand_lt.trans (by decide)
      · exact hlt
    refine ⟨⟨(natAbs_signed _ _).trans_lt hlt, Nat.zero_le _⟩, ?_⟩
    have hexact : value { coefficient := signed x.negative (x.significand * 2 ^ twos), scale := 0 }
        = x.value := by
      rw [value_of_exponent htwos, value, pow_zero, div_one]
    rw [hexact, sub_self, abs_zero]
    positivity

/-- A finite double of less than `2 ^ 96` has a decimal. -/
theorem exists_ofDouble?_of_lt {x : Double} (hx : x.isFinite = true) (h : |x.value| < 2 ^ 96) :
    ∃ d, ofDouble? x = some d := by
  unfold ofDouble?
  rw [hx, Bool.not_true, if_neg Bool.false_ne_true]
  split_ifs with hzero hexponent
  · exact ⟨_, rfl⟩
  · exact ⟨_, rfl⟩
  · obtain ⟨twos, htwos⟩ := Int.eq_ofNat_of_zero_le (not_lt.1 hexponent)
    have hroom : x.significand * 2 ^ twos < 2 ^ 96 := by
      rw [Double.abs_value, htwos, zpow_natCast] at h
      exact_mod_cast h
    rw [htwos, Int.toNat_natCast]
    dsimp only
    rw [timesTwos_eq hroom]
    exact ⟨_, rfl⟩

end Roster.Decimal
