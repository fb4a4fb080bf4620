import Roster.Proofs.Number.Numeral
import Roster.Proofs.Number.Shortest

/-!
# `Roster.Proofs.Number.Positional`: what is written without an exponent is read back

A finite double is written as a sign and the digits of its shortest decimal, with zeros behind or
before them. `exists_isPlain_positional` gives the digits: read as a numeral they are the double
again, with its sign and all its bits. So the whole text is a numeral of the double
(`read?_positional`).

What is read has other digits and another exponent than the shortest decimal, but the same value,
and this is a rational number in `exists_isPlain_scientific`. That it is rounded to the double is
then `ofDecimal_of_covers`.

What is written with two places is not read back; its digits are those of the nearest hundredths
(`exists_isPlain_twoPlaces`).
-/

set_option autoImplicit false

namespace Roster

open Text

namespace Numeral

/-- A decimal is written with digits that have its value. An exponent that is not negative is zeros
behind the digits; a negative one is a point among them. -/
theorem exists_isPlain_scientific (d : Scientific) : ∃ whole fraction,
    IsPlain d.positional whole fraction ∧
      (digitsValue (whole ++ fraction) : ℚ) * 10 ^ (0 - (fraction.length : ℤ))
        = d.digits * 10 ^ d.exponent := by
  unfold Scientific.positional
  split
  · rename_i hexponent
    -- With no places the digits are filled up with zeros, and there is no point.
    refine ⟨decimalDigits d.digits ++ zeros d.exponent.toNat, [],
      ⟨by simp, by simp [decimalDigits_ne_nil], ?_, by simp⟩, ?_⟩
    · intro c hc
      rcases List.mem_append.1 hc with hc | hc
      · exact isAsciiDigit_of_mem_decimalDigits hc
      · exact isAsciiDigit_of_mem_zeros hc
    · have hnone : (-d.exponent).toNat = 0 := by omega
      rw [List.append_nil, digitsValue_append_zeros, digitsValue_decimalDigits, Nat.cast_mul,
        cast_tenTo, hnone]
      simp [tenTo]
  · rename_i hexponent
    -- Otherwise the point stands as many digits from the end as there are places.
    have hplaces : 0 < (-d.exponent).toNat := by omega
    obtain ⟨whole, fraction, hplain, hlength, hvalue⟩ :=
      exists_isPlain_withPoint d.digits hplaces
    refine ⟨whole, fraction, hplain, ?_⟩
    rw [hvalue, hlength]
    congr 2
    omega

end Numeral

namespace Double

open Numeral

variable {x : Double}

/-- A finite double is written as digits that are read as the double again. The digits have the
value of the shortest decimal, and that is rounded to the double. -/
theorem exists_isPlain_positional (hx : x.isFinite = true) : ∃ text whole fraction,
    x.positional = String.ofList (x.signChars ++ text) ∧ IsPlain text whole fraction ∧
      Numeral.ofDigits x.negative whole fraction 0 = x := by
  unfold positional
  rw [isNaN_of_isFinite hx, isInfinite_of_isFinite hx]
  cases hzero : x.isZero with
  | true =>
    -- A zero has no shortest decimal, and its sign is all that is written of it beside the digit.
    refine ⟨['0'], ['0'], [], rfl, ⟨rfl, by simp, by simp [isAsciiDigit], by simp⟩, ?_⟩
    obtain ⟨negative, magnitude, hmagnitude⟩ := x
    have hcode : magnitude = 0 := by simpa [isZero] using hzero
    subst hcode
    rfl
  | false =>
    have hpos := significand_pos hzero
    obtain ⟨whole, fraction, hplain, hvalue⟩ := exists_isPlain_scientific (x.shortest .up)
    refine ⟨_, whole, fraction, rfl, hplain, ?_⟩
    -- Only the value of what is written counts, and it is that of the shortest decimal.
    have hcovers := covers_shortest .up hx hpos
    rw [← hvalue] at hcovers
    exact ofDecimal_of_covers hx hpos hcovers

/-- A finite double that is written and read again is the same, to the last bit. -/
theorem read?_positional (hx : x.isFinite = true) : Numeral.read? x.positional = some x := by
  obtain ⟨text, whole, fraction, htext, hplain, hvalue⟩ := exists_isPlain_positional hx
  rw [htext]
  unfold signChars
  cases hsign : x.negative with
  | true =>
    have hread := hplain.readUnsigned_eq true
    rw [← hsign, hvalue, hsign] at hread
    rw [Numeral.read?, String.toList_ofList]
    exact hread
  | false =>
    rw [← String.toList_ofList (l := text)] at hplain
    rw [if_neg Bool.false_ne_true, List.nil_append, hplain.read?_eq, ← hsign, hvalue]

/-- A finite double is written with two places as its sign and the digits of the hundredths that are
nearest to it. -/
theorem exists_isPlain_twoPlaces (hx : x.isFinite = true) : ∃ text whole fraction,
    x.twoPlaces = String.ofList (x.signChars ++ text) ∧ IsPlain text whole fraction ∧
      fraction.length = 2 ∧
      |(digitsValue (whole ++ fraction) : ℚ) - 100 * (x.significand * 2 ^ x.exponent)| ≤ 1 / 2 := by
  have hunit : (0 : ℚ) < twoTo (-x.exponent).toNat := by exact_mod_cast twoTo_pos _
  have hvalue : ((100 * x.significand * twoTo x.exponent.toNat : ℕ) : ℚ)
      / twoTo (-x.exponent).toNat = 100 * (x.significand * 2 ^ x.exponent) := by
    rw [Nat.cast_mul, Nat.cast_mul, cast_twoTo, mul_div_assoc, mul_div_assoc,
      div_self hunit.ne', mul_one, mul_assoc]
    rfl
  unfold twoPlaces
  rw [isNaN_of_isFinite hx, isInfinite_of_isFinite hx]
  obtain ⟨whole, fraction, hplain, hlength, hdigits⟩ := exists_isPlain_withPoint
    (roundHalfEven (100 * x.significand * twoTo x.exponent.toNat) (twoTo (-x.exponent).toNat))
    Nat.two_pos
  refine ⟨_, whole, fraction, rfl, hplain, hlength, ?_⟩
  rw [hdigits, ← hvalue]
  exact abs_roundHalfEven_sub_le (twoTo_pos _)

end Double

end Roster
