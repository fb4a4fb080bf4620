import Mathlib.Algebra.Order.Ring.Pow
import Roster.Proofs.Decimal.Dropping
import Roster.Proofs.Number.Shortest

/-!
# `Roster.Proofs.Decimal.Converting`: which doubles are converted to their shortest numeral

A double is at most half a unit of its own from its shortest numeral, and this unit is at most as
long as one of the last place that the conversion keeps. Dropping digits arrives at all that is
less than `5 / 9` of a unit below a numeral and less than `4 / 9` above. So a numeral is never lost
because the double is below it, but it is when the double is too far above.

`Recoverable` names the doubles where it is not, and the main result is
`Recoverable.exists_ofDouble?`: these are converted to their shortest numeral. By
`recoverable_of_le` a numeral whose kept digits, read as one number, are at most `4 * 10 ^ 15` is
never lost.
-/

set_option autoImplicit false

namespace Roster

namespace Double

open Decimal

variable {x : Double} {tie : Tie} {n places : ℕ}

/-! ### Two numbers that a double stands for -/

/-- The exact value of a finite double, without the sign. -/
def absValue (x : Double) : ℚ := x.significand * 2 ^ x.exponent

/-- The shortest decimal numeral of a finite double, without the sign. -/
def absNumeral (tie : Tie) (x : Double) : ℚ :=
  if x.isZero then 0 else (x.shortest tie).digits * 10 ^ (x.shortest tie).exponent

/-- The number that the shortest decimal numeral of a finite double names. -/
def numeral (tie : Tie) (x : Double) : ℚ := withSign x.negative (x.absNumeral tie)

/-- Both zeros have the numeral zero. -/
theorem numeral_of_isZero (h : x.isZero = true) : x.numeral tie = 0 := by
  unfold numeral absNumeral withSign
  rw [if_pos h, neg_zero, ite_self]

/-- Whether conversion arrives at the shortest numeral. The conversion keeps so many places that
the numeral, as a whole number of units of the last one, has up to 52 bits and would have more with
another place, unless this is the last of all; the double may not be `4 / 9` of such a unit above
the numeral. A double without binary places is converted exactly, so its numeral must be exact. -/
inductive Recoverable (tie : Tie) (x : Double) : Prop
  | zero (hzero : x.isZero = true)
  | whole (hexponent : 0 ≤ x.exponent) (hroom : x.absValue < 2 ^ 96)
      (hnumeral : x.absNumeral tie = x.absValue)
  | places (n places : ℕ) (hexponent : x.exponent < 0) (hplaces : places ≤ 28) (hn : n < 2 ^ 52)
      (hfull : places = 28 ∨ 2 ^ 52 ≤ 10 * n) (hnumeral : x.absNumeral tie = n / 10 ^ places)
      (hnear : 9 * (x.absValue * 10 ^ places - n) < 4)

/-- A double and its numeral, in units of the last place of the numeral. -/
structure OnPlaces (x : Double) (n places : ℕ) : Prop where
  pos : 0 < n
  unit_le : 2 ^ x.exponent * 10 ^ places * (2 ^ 53 - 1) ≤ (2 * n : ℚ)
  le_value : n - 2 ^ x.exponent * 10 ^ places / 2 ≤ x.absValue * 10 ^ places
  value_le : x.absValue * 10 ^ places ≤ n + 2 ^ x.exponent * 10 ^ places / 2

/-- The shortest numeral of a double is within its interval, which is all that is needed of it. A
subnormal double has no numeral with so few places, so the significand has all its bits. -/
theorem onPlaces (hx : x.isFinite = true) (hzero : x.isZero = false) (hplaces : places ≤ 28)
    (hnumeral : x.absNumeral tie = n / 10 ^ places) : x.OnPlaces n places := by
  have hpos := significand_pos hzero
  have hcovers : x.Covers (n / 10 ^ places) := by
    have h := covers_shortest tie hx hpos
    unfold absNumeral at hnumeral
    rw [hzero, if_neg Bool.false_ne_true] at hnumeral
    rwa [hnumeral] at h
  have hunit : (0 : ℚ) < 2 ^ x.exponent := by positivity
  have hten : (0 : ℚ) < 10 ^ places := by positivity
  have hn : 0 < n := by
    have hlow : (0 : ℚ) < n / 10 ^ places :=
      lt_of_lt_of_le (by positivity) (half_le_of_covers hpos hcovers)
    have hlow : (0 : ℚ) < n := (div_pos_iff_of_pos_right hten).1 hlow
    exact_mod_cast hlow
  -- All of them as whole numbers of units: the interval reaches half a unit of the double.
  obtain ⟨hlow, hhigh⟩ := ((covers_iff hpos).1 hcovers).bounds
  have hbelow := x.below_le
  have hvalue : x.absValue * 10 ^ places = x.significand * (2 ^ x.exponent * 10 ^ places) :=
    mul_assoc _ _ _
  have hscaled : (n : ℚ) / 10 ^ places / 2 ^ x.exponent * (2 ^ x.exponent * 10 ^ places) = n := by
    field_simp
  have hlow : (x.significand - 1 / 2) * (2 ^ x.exponent * 10 ^ places) ≤ (n : ℚ) := by
    rw [← hscaled]
    gcongr
    linarith
  have hhigh : (n : ℚ) ≤ (x.significand + 1 / 2) * (2 ^ x.exponent * 10 ^ places) := by
    rw [← hscaled]
    gcongr
  have hsome : (1 : ℚ) ≤ n := by exact_mod_cast hn
  -- A subnormal double is far too small for a digit in the places.
  have hnormal : (2 : ℚ) ^ 52 ≤ x.significand := by
    rcases x.significand_cases with ⟨hleast, hsmall, -⟩ | ⟨-, hnormal, -⟩
    · have hsmall : x.significand + 1 ≤ 2 ^ 52 := hsmall
      have hsmall : (x.significand : ℚ) + 1 ≤ 2 ^ 52 := by exact_mod_cast hsmall
      have hless : (n : ℚ) < 1 :=
        calc (n : ℚ) ≤ (x.significand + 1 / 2) * (2 ^ x.exponent * 10 ^ places) := hhigh
          _ ≤ 2 ^ 52 * (2 ^ (-200 : ℤ) * 10 ^ 28) := by
            gcongr
            · linarith
            · norm_num
            · omega
            · norm_num
          _ < 1 := by norm_num
      linarith
    · exact_mod_cast hnormal
  refine ⟨hn, ?_, ?_, ?_⟩
  · calc (2 ^ x.exponent * 10 ^ places * (2 ^ 53 - 1) : ℚ)
        = 2 * ((2 ^ 52 - 1 / 2) * (2 ^ x.exponent * 10 ^ places)) := by ring
      _ ≤ 2 * ((x.significand - 1 / 2) * (2 ^ x.exponent * 10 ^ places)) := by gcongr
      _ ≤ 2 * n := by gcongr
  · rw [hvalue]
    linarith
  · rw [hvalue]
    linarith

/-- A numeral whose digits, as far as they are kept, are not too great is not lost. -/
theorem OnPlaces.near_of_le (h : x.OnPlaces n places) (hn : n ≤ 4 * 10 ^ 15) :
    9 * (x.absValue * 10 ^ places - n) < 4 := by
  have hn : (n : ℚ) ≤ 4 * 10 ^ 15 := by exact_mod_cast hn
  linarith [h.unit_le, h.value_le]

/-- The doubles for which this can be read off the numeral. -/
theorem recoverable_of_le (hx : x.isFinite = true) (hzero : x.isZero = false)
    (hexponent : x.exponent < 0) (hplaces : places ≤ 28) (hn : n ≤ 4 * 10 ^ 15)
    (hfull : places = 28 ∨ 2 ^ 52 ≤ 10 * n) (hnumeral : x.absNumeral tie = n / 10 ^ places) :
    x.Recoverable tie :=
  .places n places hexponent hplaces (by omega) hfull hnumeral
    ((onPlaces hx hzero hplaces hnumeral).near_of_le hn)

/-! ### Conversion -/

/-- A double with places, as a quotient by a power of ten. -/
theorem absValue_eq (h : x.exponent < 0) :
    x.absValue = x.significand * 5 ^ (-x.exponent).toNat / 10 ^ (-x.exponent).toNat := by
  obtain ⟨steps, hsteps⟩ : ∃ steps : ℕ, x.exponent = -steps := ⟨(-x.exponent).toNat, by omega⟩
  have hten : (10 : ℚ) ^ steps = 5 ^ steps * 2 ^ steps := by
    rw [← mul_pow]
    norm_num
  unfold absValue
  rw [hsteps, neg_neg, Int.toNat_natCast, zpow_neg, zpow_natCast, hten]
  field_simp

/-- What is lost when twos are traded for tens is too little to count. A double has at most 1074
binary places, so even if every step loses as much as it can, the number stays near the digits of
the numeral. -/
theorem nears_overTwos (hexponent : x.exponent < 0) (h : x.OnPlaces n places)
    (hnear : 9 * (x.absValue * 10 ^ places - n) < 4) :
    Nears n (quotient (overTwos (-x.exponent).toNat x.significand (-x.exponent).toNat)
      * 10 ^ places) := by
  have hsteps : (-x.exponent).toNat ≤ 1074 := by
    have := x.le_exponent
    omega
  -- A double has at most 1074 binary places, and each step loses at most `5 / 2 ^ 96` of the value.
  obtain ⟨hless, hloss⟩ := overTwos_bounds (m := x.significand) (le_refl (-x.exponent).toNat)
  rw [← absValue_eq hexponent] at hless hloss
  generalize (-x.exponent).toNat = steps at hsteps hless hloss
  generalize quotient (overTwos steps x.significand steps) = q at hless hloss
  have hscale : (0 : ℚ) < 10 ^ places := by positivity
  have hvalue : (0 : ℚ) ≤ x.absValue := mul_nonneg (Nat.cast_nonneg _) (by positivity)
  constructor
  · have hunits : x.absValue * 10 ^ places * (1 - 1074 * (5 / 2 ^ 96)) ≤ q * 10 ^ places := by
      rw [mul_right_comm]
      gcongr
      exact (mul_le_mul_of_nonneg_left (le_kept hsteps) hvalue).trans hloss
    linarith [h.unit_le, h.le_value]
  · have hunits : q * 10 ^ places ≤ x.absValue * 10 ^ places := by gcongr
    linarith

/-- A double is converted to its shortest numeral. The three ways to be recoverable are the three
ways that a conversion goes: zero, a whole number, and places after the point. -/
theorem Recoverable.exists_ofDouble? (hx : x.isFinite = true) (h : x.Recoverable tie) :
    ∃ d, ofDouble? x = some d ∧ d.value = x.numeral tie ∧ d.IsReduced := by
  unfold ofDouble?
  rw [hx, Bool.not_true, if_neg Bool.false_ne_true]
  cases hzero : x.isZero with
  | true =>
    exact ⟨Decimal.zero, if_pos rfl, value_zero.trans (numeral_of_isZero hzero).symm, .inl rfl⟩
  | false =>
    rw [if_neg Bool.false_ne_true]
    unfold numeral
    cases h with
    | zero htrue => exact absurd (hzero.symm.trans htrue) Bool.false_ne_true
    | whole hexponent hroom hnumeral =>
      -- A whole number with room for it keeps its coefficient, and the numeral is the same number.
      obtain ⟨twos, htwos⟩ := Int.eq_ofNat_of_zero_le hexponent
      have hvalue : x.absValue = (x.significand * 2 ^ twos : ℕ) := by
        unfold absValue
        rw [htwos]
        push_cast
        rw [zpow_natCast]
      have hlt : x.significand * 2 ^ twos < 2 ^ 96 := by
        rw [hvalue] at hroom
        exact_mod_cast hroom
      rw [if_neg (by omega), hnumeral, hvalue, htwos, Int.toNat_natCast]
      refine ⟨{ coefficient := signed x.negative (x.significand * 2 ^ twos), scale := 0 },
        ?_, ?_, .inl rfl⟩
      · dsimp only
        rw [timesTwos_eq hlt]
        rfl
      · rw [value_signed x.negative (x.significand * 2 ^ twos, 0)]
        simp [quotient]
    | places n places hexponent hplaces hn hfull hnumeral hnear =>
      -- With binary places the coefficient comes near the digits of the numeral, and dropping
      -- rounds to them.
      have hon := onPlaces hx hzero hplaces hnumeral
      have hnears := nears_overTwos hexponent hon hnear
      rw [if_pos hexponent]
      refine ⟨_, rfl, ?_, normalize_isReduced _ _ _⟩
      rw [normalize_value, quotient_dropped hnears hon.pos hn hplaces hfull, hnumeral]

end Double

end Roster
