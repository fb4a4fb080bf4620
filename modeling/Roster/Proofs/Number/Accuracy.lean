import Roster.Proofs.Number.Arithmetic

/-!
# `Roster.Proofs.Number.Accuracy`: relative errors

`Within ε a b` says that `a` is `b` up to a part `ε` of it. One lemma per operation says what comes
of two such errors (`Within.add`, `Within.mul`, `Within.div`, and `Within.trans` for one after the
other), and `Within.of_isNearest` that rounding to a double adds `1 / 2 ^ 53`. Each of them leaves
it to its caller to name the error of the result, so that a chain of operations is followed with
round numbers.
-/

set_option autoImplicit false

namespace Roster

variable {ε δ η a a' b b' c : ℚ}

/-- Whether a number is another one, which is not negative, up to a part of it. -/
structure Within (ε a b : ℚ) : Prop where
  error_nonneg : 0 ≤ ε
  nonneg : 0 ≤ b
  low : b * (1 - ε) ≤ a
  high : a ≤ b * (1 + ε)

namespace Within

/-- A distance that is a part of a number bounds it on both sides. -/
theorem of_abs_sub_le (hε : 0 ≤ ε) (hb : 0 ≤ b) (h : |a - b| ≤ b * ε) : Within ε a b := by
  obtain ⟨hlow, hhigh⟩ := abs_le.1 h
  exact ⟨hε, hb, by linarith, by linarith⟩

/-- The two bounds as a distance. -/
theorem abs_sub_le (h : Within ε a b) : |a - b| ≤ b * ε := by
  have hlow := h.low
  have hhigh := h.high
  exact abs_le.2 ⟨by linarith, by linarith⟩

/-- A number is itself, without an error. -/
theorem refl (hb : 0 ≤ b) : Within 0 b b := ⟨le_rfl, hb, by simp, by simp⟩

/-- With less than the whole as an error nothing becomes zero. -/
theorem left_pos (h : Within ε a b) (hε : ε < 1) (hb : 0 < b) : 0 < a :=
  (mul_pos hb (sub_pos.2 hε)).trans_le h.low

/-- One error after the other. -/
theorem trans (h : Within ε a b) (h' : Within δ b c) (hε : ε ≤ 1) (hη : ε + δ + ε * δ ≤ η) :
    Within η a c := by
  obtain ⟨hεpos, -, hlow, hhigh⟩ := h
  obtain ⟨hδpos, hc, hlow', hhigh'⟩ := h'
  have hboth : 0 ≤ ε * δ := mul_nonneg hεpos hδpos
  refine ⟨by linarith, hc, ?_, ?_⟩
  · calc c * (1 - η) ≤ c * ((1 - δ) * (1 - ε)) := mul_le_mul_of_nonneg_left (by linarith) hc
      _ = c * (1 - δ) * (1 - ε) := (mul_assoc _ _ _).symm
      _ ≤ b * (1 - ε) := mul_le_mul_of_nonneg_right hlow' (by linarith)
      _ ≤ a := hlow
  · calc a ≤ b * (1 + ε) := hhigh
      _ ≤ c * (1 + δ) * (1 + ε) := mul_le_mul_of_nonneg_right hhigh' (by linarith)
      _ = c * ((1 + δ) * (1 + ε)) := mul_assoc _ _ _
      _ ≤ c * (1 + η) := mul_le_mul_of_nonneg_left (by linarith) hc

/-- An error may be taken for a greater one. -/
theorem mono (h : Within ε a b) (hη : ε ≤ η) : Within η a b :=
  of_abs_sub_le (h.error_nonneg.trans hη) h.nonneg
    (h.abs_sub_le.trans (mul_le_mul_of_nonneg_left hη h.nonneg))

/-- The error of a sum is that of its parts. -/
theorem add (h : Within ε a b) (h' : Within ε a' b') : Within ε (a + a') (b + b') where
  error_nonneg := h.error_nonneg
  nonneg := add_nonneg h.nonneg h'.nonneg
  low := by linarith [h.low, h'.low]
  high := by linarith [h.high, h'.high]

/-- The errors of the factors of a product. -/
theorem mul (h : Within ε a b) (h' : Within δ a' b') (hε : ε ≤ 1) (hδ : δ ≤ 1)
    (hη : ε + δ + ε * δ ≤ η) : Within η (a * a') (b * b') := by
  obtain ⟨hεpos, hb, hlow, hhigh⟩ := h
  obtain ⟨hδpos, hb', hlow', hhigh'⟩ := h'
  have hboth : 0 ≤ ε * δ := mul_nonneg hεpos hδpos
  have hproduct : 0 ≤ b * b' := mul_nonneg hb hb'
  have ha : 0 ≤ a := (mul_nonneg hb (by linarith)).trans hlow
  refine ⟨by linarith, hproduct, ?_, ?_⟩
  · calc b * b' * (1 - η) ≤ b * b' * ((1 - ε) * (1 - δ)) :=
          mul_le_mul_of_nonneg_left (by linarith) hproduct
      _ = b * (1 - ε) * (b' * (1 - δ)) := by ring
      _ ≤ a * a' := mul_le_mul hlow hlow' (mul_nonneg hb' (by linarith)) ha
  · calc a * a' ≤ b * (1 + ε) * (b' * (1 + δ)) :=
          mul_le_mul hhigh hhigh' ((mul_nonneg hb' (by linarith)).trans hlow')
            (mul_nonneg hb (by linarith))
      _ = b * b' * ((1 + ε) * (1 + δ)) := by ring
      _ ≤ b * b' * (1 + η) := mul_le_mul_of_nonneg_left (by linarith) hproduct

/-- The errors of the two sides of a quotient. The condition on the error of the result says that it
makes up for both, so the caller can choose any round number that does. -/
theorem div (h : Within ε a b) (h' : Within δ a' b') (hb' : 0 < b') (hδ : δ < 1) (hone : η ≤ 1)
    (hη : ε + δ + η * δ ≤ η) : Within η (a / a') (b / b') := by
  obtain ⟨hεpos, hb, hlow, hhigh⟩ := h
  have ha' := h'.left_pos hδ hb'
  obtain ⟨hδpos, -, hlow', hhigh'⟩ := h'
  -- The condition bounds the error of the result from below, so it need not be asked for.
  have hηpos : 0 ≤ η :=
    le_of_mul_le_mul_right (by linarith : 0 * (1 - δ) ≤ η * (1 - δ)) (sub_pos.2 hδ)
  have hboth : 0 ≤ η * δ := mul_nonneg hηpos hδpos
  have hquotient : 0 ≤ b / b' := div_nonneg hb hb'.le
  have hback : b / b' * b' = b := div_mul_cancel₀ _ hb'.ne'
  refine ⟨hηpos, hquotient, ?_, ?_⟩
  · rw [le_div_iff₀ ha']
    calc b / b' * (1 - η) * a' ≤ b / b' * (1 - η) * (b' * (1 + δ)) :=
          mul_le_mul_of_nonneg_left hhigh' (mul_nonneg hquotient (by linarith))
      _ = b / b' * b' * ((1 - η) * (1 + δ)) := by ring
      _ = b * ((1 - η) * (1 + δ)) := by rw [hback]
      _ ≤ b * (1 - ε) := mul_le_mul_of_nonneg_left (by linarith) hb
      _ ≤ a := hlow
  · rw [div_le_iff₀ ha']
    calc a ≤ b * (1 + ε) := hhigh
      _ ≤ b * ((1 + η) * (1 - δ)) := mul_le_mul_of_nonneg_left (by linarith) hb
      _ = b / b' * b' * ((1 + η) * (1 - δ)) := by rw [hback]
      _ = b / b' * (1 + η) * (b' * (1 - δ)) := by ring
      _ ≤ b / b' * (1 + η) * a' :=
          mul_le_mul_of_nonneg_left hlow' (mul_nonneg hquotient (by linarith))

/-- Rounding to a double, for a number that is zero or not subnormal. -/
theorem of_isNearest {x : Double} {r : ℚ} (h : x.IsNearest r) (hr : Double.InRange r)
    (hnormal : r = 0 ∨ 2 ^ (-1022 : ℤ) ≤ r) : Within (1 / 2 ^ 53) x.value r := by
  rcases hnormal with rfl | hnormal
  · have hzero : x.value = 0 := by
      rw [← Double.value_signed_zero false] at h ⊢
      exact h.value_eq rfl
    rw [hzero]
    exact (refl le_rfl).mono (by positivity)
  · have hpos : 0 ≤ r := le_trans (by positivity) hnormal
    refine of_abs_sub_le (by positivity) hpos ?_
    have habs := abs_of_nonneg hpos
    have hnear := h.abs_sub_le_of_normal hr (habs.symm ▸ hnormal)
    have hpower : (2 : ℚ) ^ (-53 : ℤ) = 1 / 2 ^ 53 := by norm_num
    rwa [habs, hpower] at hnear

end Within

end Roster
