import Roster.Proofs.Decimal.Returning

/-!
# `Roster.Proofs.Decimal.Fitting`: how far a sum that is rounded is from the sum

A sum of decimals that has no room is rounded to the greatest scale at which it fits. It has no room
with a digit more, so the coefficient is great, and half a unit of it is a small part of the sum:
`abs_add?_sub_le`. A sum has no decimal at all only if it has no room without places either
(`exists_add?_of_le`).
-/

set_option autoImplicit false

namespace Roster.Decimal

variable {x y d : Decimal} {n scale : ℕ}

/-- An error of a few units is a small part of a coefficient of almost 96 bits. -/
theorem abs_div_sub_le {a v error : ℚ} (h : |a - v| ≤ error) (hfull : error * 2 ^ 93 ≤ v)
    (scale : ℕ) : |a / 10 ^ scale - v / 10 ^ scale| ≤ v / 10 ^ scale / 2 ^ 93 := by
  have hunit : (0 : ℚ) < 10 ^ scale := by positivity
  rw [← sub_div, abs_div, abs_of_pos hunit, div_right_comm]
  gcongr
  linarith

/-- The same for a coefficient that is rounded to fewer digits, or to none less. -/
theorem abs_roundHalfEven_div_sub_le {dropped : ℕ}
    (hfull : dropped = 0 ∨ (2 ^ 96 - 1 / 2) / 10 ≤ (n : ℚ) / 10 ^ dropped) :
    |(roundHalfEven n (tenTo dropped) : ℚ) / 10 ^ scale - n / 10 ^ (scale + dropped)|
      ≤ n / 10 ^ (scale + dropped) / 2 ^ 93 := by
  have hsplit : (n : ℚ) / 10 ^ (scale + dropped) = n / 10 ^ dropped / 10 ^ scale := by
    rw [pow_add, mul_comm, div_div]
  rw [hsplit]
  obtain rfl | hfull := hfull
  · have hround : roundHalfEven n (tenTo 0) = n := by simp [roundHalfEven, tenTo, Nat.mod_one]
    rw [hround, pow_zero, div_one, sub_self, abs_zero]
    positivity
  · have hhalf := abs_roundHalfEven_sub_le (n := n) (tenTo_pos dropped)
    rw [cast_tenTo_eq] at hhalf
    exact abs_div_sub_le hhalf (by linarith) scale

/-- With the sign of the total taken off both sides, an error is one of natural numbers. -/
theorem abs_value_signed_sub (total : ℤ) (n : ℕ) (r : ℚ) :
    |value { coefficient := signed (total < 0) n, scale } - total / r|
      = |n / 10 ^ scale - total.natAbs / r| := by
  conv_lhs => rw [← Double.signOf_mul_natAbs total]
  rw [value, cast_signed]
  dsimp only
  rw [mul_div_assoc, mul_div_assoc, ← mul_sub, abs_mul, Double.abs_signOf, one_mul]

/-- If a coefficient has no room, it has no room without its last digit, but almost. -/
theorem full_of_limit_le {dropped : ℕ} (h : limit ≤ roundHalfEven n (tenTo dropped)) :
    (2 ^ 96 - 1 / 2) / 10 ≤ (n : ℚ) / 10 ^ (dropped + 1) := by
  have hhalf := (abs_le.1 (abs_roundHalfEven_sub_le (n := n) (tenTo_pos dropped))).2
  have hlimit : (2 : ℚ) ^ 96 ≤ roundHalfEven n (tenTo dropped) := by
    rw [limit_eq] at h
    exact_mod_cast h
  rw [cast_tenTo_eq] at hhalf
  rw [pow_succ (10 : ℚ), ← div_div]
  linarith

/-- A sum is rounded where there was no room for a digit more, so it is off by a small part. The
induction is on the scale, and the digits already dropped are carried along, since the sum is
rounded once and not step by step. -/
theorem abs_fit?_sub_le {total : ℤ} {dropped : ℕ} (h : fit? total scale dropped = some d)
    (hfull : dropped = 0 ∨ (2 ^ 96 - 1 / 2) / 10 ≤ (total.natAbs : ℚ) / 10 ^ dropped) :
    d.coefficient.natAbs < limit ∧ d.scale ≤ scale ∧
      |d.value - total / 10 ^ (scale + dropped)|
        ≤ total.natAbs / 10 ^ (scale + dropped) / 2 ^ 93 := by
  induction scale using Nat.strong_induction_on generalizing dropped with
  | _ scale ih =>
    unfold fit? at h
    dsimp only at h
    split_ifs at h with hroom
    · cases h
      refine ⟨(natAbs_signed _ _).trans_lt hroom, le_rfl, ?_⟩
      rw [abs_value_signed_sub]
      exact abs_roundHalfEven_div_sub_le hfull
    · cases scale with
      | zero => cases h
      | succ scale =>
        obtain ⟨hcoefficient, hscale, herror⟩ :=
          ih scale (Nat.lt_succ_self _) h (.inr (full_of_limit_le (not_lt.1 hroom)))
        have hpower : scale + 1 + dropped = scale + (dropped + 1) := by omega
        exact ⟨hcoefficient, hscale.trans (Nat.le_succ _), hpower ▸ herror⟩

/-- A sum of a little less than `2 ^ 96` fits, if not with its places, then without them. The bound
is less than `2 ^ 96` by one, which leaves room for rounding up. -/
theorem exists_fit? {total : ℤ} {dropped : ℕ}
    (h : (total.natAbs : ℚ) / 10 ^ (scale + dropped) ≤ 2 ^ 96 - 1) :
    ∃ d, fit? total scale dropped = some d := by
  induction scale generalizing dropped with
  | zero =>
    -- Without places the sum is what is left, and rounding adds a half at most.
    have hroom : roundHalfEven total.natAbs (tenTo dropped) < limit := by
      have hhalf := (abs_le.1 (abs_roundHalfEven_sub_le (n := total.natAbs) (tenTo_pos dropped))).2
      rw [cast_tenTo_eq] at hhalf
      rw [Nat.zero_add] at h
      have hlt : (roundHalfEven total.natAbs (tenTo dropped) : ℚ) < 2 ^ 96 := by linarith
      rw [limit_eq]
      exact_mod_cast hlt
    unfold fit?
    exact ⟨_, if_pos hroom⟩
  | succ scale ih =>
    unfold fit?
    dsimp only
    split_ifs with hroom
    · exact ⟨_, rfl⟩
    · -- One place less is one digit more to drop, and the value stays the same.
      refine ih ?_
      have hpower : scale + (dropped + 1) = scale + 1 + dropped := by omega
      rwa [hpower]

/-- What is fitted stands for the sum, at the greater scale of the two. -/
theorem atScale_add_div_eq (x y : Decimal) :
    ((x.atScale (max x.scale y.scale) + y.atScale (max x.scale y.scale) : ℤ) : ℚ)
      / 10 ^ max x.scale y.scale = x.value + y.value := by
  rw [atScale_add_eq (le_max_left _ _) (le_max_right _ _),
    mul_div_cancel_right₀ _ (by positivity)]

/-- The sum of two decimals is off by a small part, and it fits. A zero gives the other operand
back, and any other sum is exact before it is made to fit. -/
theorem abs_add?_sub_le (hx : x.Fits) (hy : y.Fits) (h : x.add? y = some d) :
    d.Fits ∧ |d.value - (x.value + y.value)| ≤ |x.value + y.value| / 2 ^ 93 := by
  have hexact {s : Decimal} (hs : s.Fits) (heq : s.value = x.value + y.value) :
      s.Fits ∧ |s.value - (x.value + y.value)| ≤ |x.value + y.value| / 2 ^ 93 := by
    rw [heq, sub_self, abs_zero]
    exact ⟨hs, by positivity⟩
  unfold add? at h
  split_ifs at h with hxzero hyzero
  · cases h
    exact hexact hy (by simp [value, hxzero])
  · cases h
    exact hexact hx (by simp [value, hyzero])
  · -- At the greater scale the sum is exact, and all that is lost is lost in making it fit.
    have htotal := atScale_add_div_eq x y
    dsimp only at h
    generalize x.atScale (max x.scale y.scale) + y.atScale (max x.scale y.scale) = total
      at h htotal
    obtain ⟨hcoefficient, hscale, herror⟩ := abs_fit?_sub_le h (.inl rfl)
    refine ⟨⟨hcoefficient, hscale.trans (max_le hx.2 hy.2)⟩, ?_⟩
    have habs : |x.value + y.value| = total.natAbs / 10 ^ max x.scale y.scale := by
      rw [← htotal, abs_div, abs_of_pos (by positivity : (0 : ℚ) < 10 ^ max x.scale y.scale),
        Nat.cast_natAbs, Int.cast_abs]
    rwa [Nat.add_zero, htotal, ← habs] at herror

/-- Decimals have a sum if it is less than `2 ^ 96` by one. -/
theorem exists_add?_of_le (h : |x.value + y.value| ≤ 2 ^ 96 - 1) : ∃ d, x.add? y = some d := by
  unfold add?
  split_ifs with hxzero hyzero
  · exact ⟨_, rfl⟩
  · exact ⟨_, rfl⟩
  · have htotal := atScale_add_div_eq x y
    dsimp only
    generalize x.atScale (max x.scale y.scale) + y.atScale (max x.scale y.scale) = total
      at htotal ⊢
    refine exists_fit? ?_
    rwa [← htotal, abs_div, abs_of_pos (by positivity : (0 : ℚ) < 10 ^ max x.scale y.scale),
      ← Int.cast_abs, ← Nat.cast_natAbs] at h

end Roster.Decimal
