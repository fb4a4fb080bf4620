import Mathlib.Algebra.Order.Field.Power
import Mathlib.Data.Int.Log
import Mathlib.Data.Rat.Floor
import Mathlib.Tactic.FieldSimp
import Mathlib.Tactic.Linarith
import Mathlib.Tactic.Positivity
import Mathlib.Tactic.Ring
import Roster.Number.Shortest

/-!
# `Roster.Proofs.Number.Rounding`: which numbers are rounded to a double

The numbers that are rounded to a positive finite double form an interval around it, the one
that `quarterInterval` gives in quarters of its unit. `Double.Covers` says of a rational number
that it lies in there, and the main results are that it is rounded to the double then:
`ofQuotient_of_covers` for a quotient and `ofDecimal_of_covers` for a decimal.

Rounding goes by the unit exponent that the number itself has, so this has to be compared with
the exponent of the double. `floorLog2_eq_log` says that it is found with the binary logarithm.
In the interval the two exponents agree, but for one case: below a power of two the unit is half
as long. There the number is rounded up to the power of two, and the magnitude code comes out the
same (`nearestCode_of_covers`), for `magnitude_eq` holds of both ways to write a power of two.
-/

set_option autoImplicit false

namespace Roster

/-! ### Powers with whole exponents -/

/-- Powers of two are positive. -/
theorem twoTo_pos (n : ℕ) : 0 < twoTo n := Nat.pow_pos (by decide)

/-- Powers of ten are positive. -/
theorem tenTo_pos (n : ℕ) : 0 < tenTo n := Nat.pow_pos (by decide)

/-- One of the two natural exponents is zero. -/
theorem pow_toNat {b : ℚ} (hb : b ≠ 0) (e : ℤ) : b ^ e.toNat = b ^ e * b ^ (-e).toNat := by
  rw [← zpow_natCast, ← zpow_natCast, ← zpow_add₀ hb]
  congr 1
  omega

/-- A power of two with a negative exponent is written as a denominator. So an integer exponent is
two natural ones, of which one is zero. -/
theorem cast_twoTo (e : ℤ) : (twoTo e.toNat : ℚ) = 2 ^ e * twoTo (-e).toNat := by
  simpa [twoTo] using pow_toNat (two_ne_zero (α := ℚ)) e

/-- The same for powers of ten. -/
theorem cast_tenTo (e : ℤ) : (tenTo e.toNat : ℚ) = 10 ^ e * tenTo (-e).toNat := by
  simpa [tenTo] using pow_toNat (by norm_num : (10 : ℚ) ≠ 0) e

/-! A number in another unit is compared with a power of two. -/

/-- How many bits a number has in a unit, by an upper bound. -/
theorem div_lt_two_pow_iff {v : ℚ} {e : ℤ} (k : ℕ) : v / 2 ^ e < 2 ^ k ↔ v < 2 ^ (e + k) := by
  have hunit : (0 : ℚ) < 2 ^ e := by positivity
  rw [div_lt_iff₀ hunit, ← zpow_natCast, ← zpow_add₀ two_ne_zero, add_comm]

/-- How many bits a number has in a unit, by a lower bound. -/
theorem two_pow_le_div_iff {v : ℚ} {e : ℤ} (k : ℕ) : 2 ^ k ≤ v / 2 ^ e ↔ 2 ^ (e + k) ≤ v := by
  rw [← not_lt, div_lt_two_pow_iff, not_lt]

/-! The binary logarithm of ten is a little more than `93 / 28` and a little less than
`10 / 3`. -/

/-- A power of two is below a power of ten if their exponents are as `93` to `28`, which is a little
less than the logarithm. -/
theorem two_zpow_le_ten_zpow {a b : ℤ} (hb : 0 ≤ b) (h : 28 * a ≤ 93 * b) :
    (2 : ℚ) ^ a ≤ 10 ^ b := by
  lift b to ℕ using hb
  have hpower : ((2 : ℚ) ^ a.toNat) ^ 28 ≤ (10 ^ b) ^ 28 :=
    calc ((2 : ℚ) ^ a.toNat) ^ 28 = 2 ^ (28 * a.toNat) := by rw [← pow_mul, mul_comm]
      _ ≤ 2 ^ (93 * b) := pow_le_pow_right₀ (by norm_num) (by omega)
      _ = (2 ^ 93) ^ b := pow_mul _ _ _
      _ ≤ (10 ^ 28) ^ b := by gcongr; norm_num
      _ = (10 ^ b) ^ 28 := by rw [← pow_mul, ← pow_mul, mul_comm]
  calc (2 : ℚ) ^ a ≤ 2 ^ (a.toNat : ℤ) := zpow_le_zpow_right₀ (by norm_num) a.self_le_toNat
    _ = 2 ^ a.toNat := zpow_natCast _ _
    _ ≤ 10 ^ b := le_of_pow_le_pow_left₀ (by decide) (by positivity) hpower
    _ = 10 ^ (b : ℤ) := (zpow_natCast _ _).symm

/-- A power of ten is below a power of two if their exponents are as `3` to `10`. -/
theorem ten_zpow_le_two_zpow_of_nonneg {a b : ℤ} (hb : 0 ≤ b) (h : 10 * b ≤ 3 * a) :
    (10 : ℚ) ^ b ≤ 2 ^ a := by
  lift b to ℕ using hb
  lift a to ℕ using (by omega)
  have hpower : ((10 : ℚ) ^ b) ^ 3 ≤ (2 ^ a) ^ 3 :=
    calc ((10 : ℚ) ^ b) ^ 3 = (10 ^ 3) ^ b := by rw [← pow_mul, ← pow_mul, mul_comm]
      _ ≤ (2 ^ 10) ^ b := by gcongr; norm_num
      _ = 2 ^ (10 * b) := (pow_mul _ _ _).symm
      _ ≤ 2 ^ (3 * a) := pow_le_pow_right₀ (by norm_num) (by omega)
      _ = (2 ^ a) ^ 3 := by rw [← pow_mul, mul_comm]
  rw [zpow_natCast, zpow_natCast]
  exact le_of_pow_le_pow_left₀ (by decide) (by positivity) hpower

/-- The same for negative exponents, where the other fraction is the one that errs to the right
side. -/
theorem ten_zpow_le_two_zpow_of_nonpos {a b : ℤ} (hb : b ≤ 0) (h : 93 * b ≤ 28 * a) :
    (10 : ℚ) ^ b ≤ 2 ^ a := by
  have hinv : (2 : ℚ) ^ (-a) ≤ 10 ^ (-b) := two_zpow_le_ten_zpow (by omega) (by omega)
  rw [zpow_neg, zpow_neg] at hinv
  exact (inv_le_inv₀ (by positivity) (by positivity)).1 hinv

/-! ### Intervals -/

/-- Whether a number lies between two ends, which may belong to the interval or not. -/
def Between (closed : Bool) (low high v : ℚ) : Prop :=
  if closed then low ≤ v ∧ v ≤ high else low < v ∧ v < high

namespace Between

variable {closed : Bool} {low high v : ℚ}

/-- Whether the ends count or not, they are bounds. -/
theorem bounds (h : Between closed low high v) : low ≤ v ∧ v ≤ high := by
  cases closed with
  | true => exact h
  | false => exact ⟨h.1.le, h.2.le⟩

/-- What is properly between the ends is between them, whether these count or not. -/
theorem of_lt (hlow : low < v) (hhigh : v < high) : Between closed low high v := by
  cases closed with
  | true => exact ⟨hlow.le, hhigh.le⟩
  | false => exact ⟨hlow, hhigh⟩

/-- What is between two ends is between any that are farther apart. -/
theorem mono {low' high' : ℚ} (h : Between closed low high v) (hlow : low' ≤ low)
    (hhigh : high ≤ high') : Between closed low' high' v := by
  cases closed with
  | true => exact ⟨hlow.trans h.1, h.2.trans hhigh⟩
  | false => exact ⟨hlow.trans_lt h.1, h.2.trans_le hhigh⟩

/-- An interval can be measured in another unit. -/
theorem mul_iff {u : ℚ} (hu : 0 < u) :
    Between closed (low * u) (high * u) (v * u) ↔ Between closed low high v := by
  cases closed with
  | true => exact and_congr (mul_le_mul_iff_left₀ hu) (mul_le_mul_iff_left₀ hu)
  | false => exact and_congr (mul_lt_mul_iff_left₀ hu) (mul_lt_mul_iff_left₀ hu)

end Between

/-! ### Rounding to whole numbers -/

/-- A quotient is rounded to the whole number that is at most a half away, if a half comes only
with an even number. -/
theorem roundHalfEven_eq {n d m : ℕ} (hd : 0 < d) (hlow : 2 * (m * d) ≤ 2 * n + d)
    (hhigh : 2 * n ≤ 2 * (m * d) + d)
    (htie : m % 2 = 0 ∨ 2 * (m * d) < 2 * n + d ∧ 2 * n < 2 * (m * d) + d) :
    roundHalfEven n d = m := by
  have hsplit : n / d * d + n % d = n := Nat.div_add_mod' n d
  have hr : n % d < d := Nat.mod_lt n hd
  unfold roundHalfEven
  generalize n / d = q at hsplit ⊢
  generalize n % d = r at hsplit hr ⊢
  dsimp only
  -- The number is the whole part of the quotient or the one after it.
  have hcases : m = q ∨ m = q + 1 := by
    by_contra hne
    rcases (by omega : m + 1 ≤ q ∨ q + 2 ≤ m) with hless | hgreater
    · have := Nat.mul_le_mul_right d hless
      rw [Nat.add_mul] at this
      omega
    · have := Nat.mul_le_mul_right d hgreater
      rw [Nat.add_mul] at this
      omega
  rcases hcases with rfl | rfl
  · split_ifs <;> omega
  · rw [Nat.add_mul] at hlow hhigh htie
    split_ifs <;> omega

/-- The same with the quotient as a rational number. -/
theorem roundHalfEven_of_between {n d m : ℕ} (hd : 0 < d)
    (h : Between (m % 2 == 0) (m - 1 / 2) (m + 1 / 2) (n / d)) : roundHalfEven n d = m := by
  -- Multiplied by twice the divisor all of these numbers are whole.
  have hlow : ((m : ℚ) - 1 / 2) * (2 * d) = (2 * (m * d) : ℕ) - (d : ℕ) := by
    push_cast
    ring
  have hhigh : ((m : ℚ) + 1 / 2) * (2 * d) = (2 * (m * d) + d : ℕ) := by
    push_cast
    ring
  have hvalue : (n : ℚ) / d * (2 * d) = (2 * n : ℕ) := by
    push_cast
    field_simp
  have hscale : (0 : ℚ) < 2 * d := by positivity
  have hwhole := (Between.mul_iff hscale).2 h
  rw [hlow, hhigh, hvalue] at hwhole
  obtain ⟨hlow, hhigh⟩ := hwhole.bounds
  rw [sub_le_iff_le_add] at hlow
  refine roundHalfEven_eq hd (by exact_mod_cast hlow) (by exact_mod_cast hhigh) ?_
  cases heven : m % 2 == 0 with
  | true => exact .inl (by simpa using heven)
  | false =>
    rw [heven] at hwhole
    obtain ⟨hlow, hhigh⟩ := hwhole
    rw [sub_lt_iff_lt_add] at hlow
    exact .inr ⟨by exact_mod_cast hlow, by exact_mod_cast hhigh⟩

/-- A quotient lies in the interval of what it is rounded to; the ends count if this is even.
Whether the ends count is the tie rule: an exact half is rounded only to an even number. -/
theorem between_roundHalfEven {n d : ℕ} (hd : 0 < d) :
    Between (roundHalfEven n d % 2 == 0) (roundHalfEven n d - 1 / 2) (roundHalfEven n d + 1 / 2)
      (n / d : ℚ) := by
  have hsplit : n / d * d + n % d = n := Nat.div_add_mod' n d
  have hr : n % d < d := Nat.mod_lt n hd
  have hwhole : 2 * (roundHalfEven n d * d) ≤ 2 * n + d ∧
      2 * n ≤ 2 * (roundHalfEven n d * d) + d ∧
      (roundHalfEven n d % 2 = 0 ∨ 2 * (roundHalfEven n d * d) < 2 * n + d ∧
        2 * n < 2 * (roundHalfEven n d * d) + d) := by
    unfold roundHalfEven
    generalize n / d = q at hsplit ⊢
    generalize n % d = r at hsplit hr ⊢
    dsimp only
    split_ifs
    · omega
    · rw [Nat.add_mul]
      omega
    · rcases Nat.mod_two_eq_zero_or_one q with heven | hodd
      · rw [heven, Nat.add_zero]
        omega
      · rw [hodd, Nat.add_mul]
        omega
  generalize roundHalfEven n d = m at hwhole ⊢
  obtain ⟨hlow, hhigh, htie⟩ := hwhole
  -- Multiplied by twice the divisor all of these numbers are whole.
  have hd' : (0 : ℚ) < d := by exact_mod_cast hd
  have hscale : (0 : ℚ) < 2 * d := by positivity
  have hvalue : (n : ℚ) / d * (2 * d) = 2 * n := by field_simp
  rw [← Between.mul_iff hscale, hvalue]
  have hlow : (2 * (m * d) : ℚ) ≤ 2 * n + d := by exact_mod_cast hlow
  have hhigh : (2 * n : ℚ) ≤ 2 * (m * d) + d := by exact_mod_cast hhigh
  cases heven : m % 2 == 0 with
  | true => exact ⟨by linarith, by linarith⟩
  | false =>
    obtain hzero | ⟨hlow, hhigh⟩ := htie
    · rw [hzero] at heven
      cases heven
    · have hlow : (2 * (m * d) : ℚ) < 2 * n + d := by exact_mod_cast hlow
      have hhigh : (2 * n : ℚ) < 2 * (m * d) + d := by exact_mod_cast hhigh
      exact ⟨by linarith, by linarith⟩

/-- What a quotient is rounded to is at most a half away. -/
theorem abs_roundHalfEven_sub_le {n d : ℕ} (hd : 0 < d) :
    |(roundHalfEven n d : ℚ) - n / d| ≤ 1 / 2 := by
  obtain ⟨hlow, hhigh⟩ := (between_roundHalfEven (n := n) hd).bounds
  exact abs_le.2 ⟨by linarith, by linarith⟩

/-! ### The binary logarithm -/

/-- Powers of two around a number name its logarithm. -/
theorem log_two_eq {v : ℚ} {e : ℤ} (hlow : 2 ^ e ≤ v) (hhigh : v < 2 ^ (e + 1)) :
    Int.log 2 v = e := by
  have hpos : 0 < v := lt_of_lt_of_le (by positivity) hlow
  have hle : e ≤ Int.log 2 v := (Int.zpow_le_iff_le_log (by decide) hpos).1 hlow
  have hlt : Int.log 2 v < e + 1 := (Int.lt_zpow_iff_log_lt (by decide) hpos).1 hhigh
  omega

/-- The powers of two around a natural number. -/
theorem log2_bounds {n : ℕ} (hn : 0 < n) :
    (2 : ℚ) ^ (n.log2 : ℤ) ≤ n ∧ (n : ℚ) < 2 ^ ((n.log2 : ℤ) + 1) := by
  have hlow : 2 ^ n.log2 ≤ n := Nat.log2_self_le hn.ne'
  have hhigh : n < 2 ^ (n.log2 + 1) := Nat.lt_log2_self
  exact ⟨by exact_mod_cast hlow, by exact_mod_cast hhigh⟩

/-- A quotient is compared with a power of two without a division. -/
theorem twoTo_le_iff {n d : ℕ} (hd : 0 < d) (e : ℤ) :
    d * twoTo e.toNat ≤ n * twoTo (-e).toNat ↔ (2 : ℚ) ^ e ≤ n / d := by
  have hunit : (0 : ℚ) < twoTo (-e).toNat := by exact_mod_cast twoTo_pos _
  have hd : (0 : ℚ) < d := by exact_mod_cast hd
  rw [le_div_iff₀ hd, ← mul_le_mul_iff_left₀ hunit, mul_right_comm, ← cast_twoTo, mul_comm]
  exact_mod_cast Iff.rfl

/-- The logarithm of a quotient of natural numbers, rounded down, is the library's. The logarithms
of the two numbers leave two candidates, and the function compares with the power between them. -/
theorem floorLog2_eq_log {n d : ℕ} (hn : 0 < n) (hd : 0 < d) :
    floorLog2 n d = Int.log 2 ((n : ℚ) / d) := by
  obtain ⟨hn₁, hn₂⟩ := log2_bounds hn
  obtain ⟨hd₁, hd₂⟩ := log2_bounds hd
  have hpos : (0 : ℚ) < d := by exact_mod_cast hd
  unfold floorLog2
  dsimp only
  -- The logarithms of the two numbers give that of the quotient up to one. Which of the two it is,
  -- is what the function compares.
  have hhigh : (n : ℚ) / d < 2 ^ ((n.log2 : ℤ) - d.log2 + 1) := by
    rw [div_lt_iff₀ hpos]
    calc (n : ℚ) < 2 ^ ((n.log2 : ℤ) + 1) := hn₂
      _ = 2 ^ ((n.log2 : ℤ) - d.log2 + 1) * 2 ^ (d.log2 : ℤ) := by
        rw [← zpow_add₀ two_ne_zero]
        congr 1
        omega
      _ ≤ 2 ^ ((n.log2 : ℤ) - d.log2 + 1) * d := by gcongr
  have hlow : 2 ^ ((n.log2 : ℤ) - d.log2 - 1) ≤ (n : ℚ) / d := by
    rw [le_div_iff₀ hpos]
    calc 2 ^ ((n.log2 : ℤ) - d.log2 - 1) * (d : ℚ)
        ≤ 2 ^ ((n.log2 : ℤ) - d.log2 - 1) * 2 ^ ((d.log2 : ℤ) + 1) := by gcongr
      _ = 2 ^ (n.log2 : ℤ) := by
        rw [← zpow_add₀ two_ne_zero]
        congr 1
        omega
      _ ≤ n := hn₁
  split
  · rename_i hle
    exact (log_two_eq ((twoTo_le_iff hd _).1 hle) hhigh).symm
  · rename_i hlt
    rw [twoTo_le_iff hd, not_le] at hlt
    refine (log_two_eq hlow ?_).symm
    rw [sub_add_cancel]
    exact hlt

namespace Double

variable {x : Double} {v : ℚ} {n d : ℕ} {e : ℤ}

/-! ### Significand and exponent -/

/-- The leading one of a significand. -/
theorem hidden_eq : hidden = 2 ^ 52 := rfl

/-- The magnitude code is made of the exponent and the significand. -/
theorem magnitude_eq (x : Double) :
    x.magnitude = (x.exponent + 1074).toNat * hidden + x.significand := by
  have hpos : 0 < hidden := twoTo_pos 52
  unfold exponent significand
  split
  · simp
  · rename_i hnormal
    -- The code of a normal double has one step of the exponent more, and its significand has the
    -- hidden bit for it.
    have hquotient : 1 ≤ x.magnitude / hidden := (Nat.one_le_div_iff hpos).2 (by omega)
    have hsplit := Nat.div_add_mod' x.magnitude hidden
    generalize x.magnitude / hidden = a at hquotient hsplit ⊢
    have hexponent : ((a : ℤ) - 1075 + 1074).toNat = a - 1 := by omega
    rw [hexponent, Nat.sub_mul]
    have := Nat.mul_le_mul_right hidden hquotient
    omega

/-- A double is subnormal, or its significand has a leading one and its unit is at least the least
one. -/
theorem significand_cases (x : Double) :
    (x.exponent = -1074 ∧ x.significand < hidden ∧ x.magnitude = x.significand) ∨
      (-1074 ≤ x.exponent ∧ hidden ≤ x.significand ∧ x.significand < 2 * hidden) := by
  have hpos : 0 < hidden := twoTo_pos 52
  unfold exponent significand
  split
  · exact .inl ⟨rfl, by assumption, rfl⟩
  · have hquotient : 1 ≤ x.magnitude / hidden := (Nat.one_le_div_iff hpos).2 (by omega)
    have hmod := Nat.mod_lt x.magnitude hpos
    exact .inr (by omega)

/-- A significand has at most 53 bits. -/
theorem significand_lt (x : Double) : x.significand < 2 ^ 53 := by
  rcases x.significand_cases with ⟨-, hlt, -⟩ | ⟨-, -, hlt⟩ <;>
    · rw [hidden_eq] at hlt
      omega

/-- A double that is no zero has a significand. -/
theorem significand_pos (hzero : x.isZero = false) : 0 < x.significand := by
  have hcode : x.magnitude ≠ 0 := by simpa [isZero] using hzero
  rcases x.significand_cases with ⟨-, -, hsame⟩ | ⟨-, hnormal, -⟩
  · omega
  · exact (twoTo_pos 52).trans_le hnormal

/-- No double has a smaller unit than the subnormal ones. -/
theorem le_exponent (x : Double) : -1074 ≤ x.exponent := by
  rcases x.significand_cases with ⟨hleast, -⟩ | ⟨hleast, -⟩ <;> omega

/-- The codes of finite doubles are below that of infinity. -/
theorem magnitude_lt_of_isFinite (hx : x.isFinite = true) : x.magnitude < infinityCode := by
  simpa [isFinite] using hx

/-- A finite number is a number. -/
theorem isNaN_of_isFinite (hx : x.isFinite = true) : x.isNaN = false := by
  simpa [isNaN] using (magnitude_lt_of_isFinite hx).le

/-- A finite double is not infinite. -/
theorem isInfinite_of_isFinite (hx : x.isFinite = true) : x.isInfinite = false := by
  simpa [isInfinite] using (magnitude_lt_of_isFinite hx).ne

/-- The greatest unit of a finite double. -/
theorem exponent_le (hx : x.isFinite = true) : x.exponent ≤ 971 := by
  have hlt : x.magnitude < 2047 * hidden := magnitude_lt_of_isFinite hx
  have hquotient : x.magnitude / hidden < 2047 := (Nat.div_lt_iff_lt_mul (twoTo_pos 52)).2 hlt
  unfold exponent
  split <;> omega

/-! ### The numbers that are rounded to a double -/

/-- Whether a number lies in the interval that `quarterInterval` gives in quarters of the unit. -/
def Covers (x : Double) (v : ℚ) : Prop :=
  let (low, high, closed) := x.quarterInterval
  Between closed (low * 2 ^ (x.exponent - 2)) (high * 2 ^ (x.exponent - 2)) v

/-- A number that is less than a quarter of the unit below a double lies in its interval. -/
theorem covers_of_quarter (hpos : 0 < x.significand)
    (hlow : (4 * x.significand - 1 : ℚ) * 2 ^ (x.exponent - 2) < v)
    (hhigh : v ≤ 4 * x.significand * 2 ^ (x.exponent - 2)) : x.Covers v := by
  have hunit : (0 : ℚ) < 2 ^ (x.exponent - 2) := by positivity
  have hless (k : ℕ) (hk : 1 ≤ k) :
      ((4 * x.significand - k : ℕ) : ℚ) * 2 ^ (x.exponent - 2)
        ≤ (4 * x.significand - 1) * 2 ^ (x.exponent - 2) := by
    have hwhole : 4 * x.significand - k + 1 ≤ 4 * x.significand := by omega
    have hcast : ((4 * x.significand - k : ℕ) : ℚ) + 1 ≤ 4 * x.significand := by
      exact_mod_cast hwhole
    gcongr
    linarith
  unfold Covers quarterInterval
  dsimp only
  -- The interval reaches down by a quarter at least, whether the double below is as far away as the
  -- one above or half as far.
  refine .of_lt ((hless _ ?_).trans_lt hlow) (hhigh.trans_lt ?_)
  · split <;> decide
  · push_cast
    gcongr
    linarith

/-- How far the interval reaches below a double, in units. -/
def below (x : Double) : ℚ :=
  if x.significand = hidden ∧ hidden < x.magnitude then 1 / 4 else 1 / 2

/-- The interval of a double reaches at most half a unit down. -/
theorem below_le (x : Double) : x.below ≤ 1 / 2 := by
  unfold below
  split <;> norm_num

/-- The interval in units. The lower end is half a unit below, or a quarter where the doubles below
are closer. -/
theorem covers_iff (hpos : 0 < x.significand) :
    x.Covers v ↔ Between (x.significand % 2 == 0) (x.significand - x.below)
      (x.significand + 1 / 2) (v / 2 ^ x.exponent) := by
  have hunit : (0 : ℚ) < 2 ^ x.exponent := by positivity
  have hquarter : (2 : ℚ) ^ (x.exponent - 2) = 1 / 4 * 2 ^ x.exponent := by
    rw [zpow_sub₀ two_ne_zero]
    ring
  rw [← Between.mul_iff hunit, div_mul_cancel₀ _ hunit.ne']
  unfold Covers quarterInterval below
  dsimp only
  rw [hquarter, ← mul_assoc, ← mul_assoc]
  have hhigh : ((4 * x.significand + 2 : ℕ) : ℚ) * (1 / 4) = x.significand + 1 / 2 := by
    push_cast
    ring
  -- The lower end is one or two quarters of a unit below, as `below` says.
  have hlow (k : ℕ) (hk : k ≤ 2) :
      ((4 * x.significand - k : ℕ) : ℚ) * (1 / 4) = x.significand - k / 4 := by
    rw [Nat.cast_sub (by omega)]
    push_cast
    ring
  rw [hhigh]
  split
  · rw [hlow 1 (by decide), Nat.cast_one]
  · rw [hlow 2 (by decide)]
    norm_num

/-- The numbers of the interval are less than the power of two with the next exponent. -/
theorem lt_of_covers (hpos : 0 < x.significand) (h : x.Covers v) : v < 2 ^ (x.exponent + 53) := by
  obtain ⟨-, hhigh⟩ := ((covers_iff hpos).1 h).bounds
  have hsmall : (x.significand : ℚ) + 1 ≤ 2 ^ 53 := by exact_mod_cast x.significand_lt
  exact (div_lt_two_pow_iff 53).1 (by linarith)

/-- The unit exponent that a number of the interval has by itself is that of the double, or the
double is a power of two, the number less than it and the unit half as long. -/
theorem unit_cases (hpos : 0 < x.significand) (h : x.Covers v) :
    max (Int.log 2 v - 52) (-1074) = x.exponent ∨
      (max (Int.log 2 v - 52) (-1074) = x.exponent - 1 ∧ -1074 < x.exponent ∧
        x.significand = hidden ∧ v < 2 ^ (x.exponent + 52)) := by
  have hunit : (0 : ℚ) < 2 ^ x.exponent := by positivity
  obtain ⟨hlow, -⟩ := ((covers_iff hpos).1 h).bounds
  have hbelow := x.below_le
  have hsome : (1 : ℚ) ≤ x.significand := by exact_mod_cast hpos
  have hv : 0 < v := (div_pos_iff_of_pos_right hunit).1 (by linarith)
  have hlog : Int.log 2 v < x.exponent + 53 :=
    (Int.lt_zpow_iff_log_lt (by decide) hv).1 (by exact_mod_cast lt_of_covers hpos h)
  -- With the least unit there is no shorter one.
  rcases x.significand_cases with ⟨hleast, -, -⟩ | ⟨hleast, hnormal, -⟩
  · exact .inl (by omega)
  by_cases hone : x.exponent = -1074
  · exact .inl (by omega)
  -- A number that is not below the power of two with this exponent has the exponent itself.
  by_cases hbig : (2 : ℚ) ^ (x.exponent + 52) ≤ v
  · have : x.exponent + 52 ≤ Int.log 2 v := (Int.zpow_le_iff_le_log (by decide) hv).1 hbig
    exact .inl (by omega)
  · rw [not_le] at hbig
    have hunits : v / 2 ^ x.exponent < 2 ^ 52 := (div_lt_two_pow_iff 52).2 hbig
    -- The double is at most half a unit above the number, so no other lies between them.
    have hpower : x.significand = hidden := by
      have hcast : (x.significand : ℚ) < 2 ^ 52 + 1 := by linarith
      have hlt : x.significand < 2 ^ 52 + 1 := by exact_mod_cast hcast
      rw [hidden_eq] at hnormal ⊢
      omega
    have hnear : (2 : ℚ) ^ (x.exponent + 51) ≤ v := by
      have hcast : (2 : ℚ) ^ 52 ≤ x.significand := by exact_mod_cast hnormal
      exact (two_pow_le_div_iff 51).1 (by linarith)
    have hlog : Int.log 2 v = x.exponent + 51 := log_two_eq hnear (by
      rw [add_assoc]
      exact hbig)
    exact .inr ⟨by omega, by omega, hpower, hbig⟩

/-- Below a power of two the interval reaches half as far, if there is a shorter unit. -/
theorem below_eq_quarter (hpower : x.significand = hidden) (hleast : -1074 < x.exponent) :
    x.below = 1 / 4 := by
  have hcode : 1 * hidden ≤ (x.exponent + 1074).toNat * hidden :=
    Nat.mul_le_mul_right hidden (by omega)
  have hpos : 0 < hidden := twoTo_pos 52
  rw [below, if_pos]
  refine ⟨hpower, ?_⟩
  rw [magnitude_eq, hpower]
  omega

/-- In the unit that is half as long a power of two is twice its significand, and a number of the
interval is at most half of this unit below it. -/
theorem between_of_below (hpower : x.significand = hidden) (hleast : -1074 < x.exponent)
    (hless : v < 2 ^ (x.exponent + 52)) (h : x.Covers v) :
    Between (2 * hidden % 2 == 0) ((2 * hidden : ℕ) - 1 / 2) ((2 * hidden : ℕ) + 1 / 2)
      (v / 2 ^ (x.exponent - 1)) := by
  have hpos : 0 < x.significand := hpower ▸ twoTo_pos 52
  obtain ⟨hlow, -⟩ := ((covers_iff hpos).1 h).bounds
  have hhigh : v / 2 ^ x.exponent < 2 ^ 52 := (div_lt_two_pow_iff 52).2 hless
  have hdouble : v / 2 ^ (x.exponent - 1) = 2 * (v / 2 ^ x.exponent) := by
    rw [zpow_sub_one₀ two_ne_zero]
    field_simp
  have heven : (2 * hidden % 2 == 0) = true := by simp
  rw [heven, hdouble]
  rw [below_eq_quarter hpower hleast, hpower] at hlow
  rw [hidden_eq] at hlow ⊢
  push_cast at hlow ⊢
  exact ⟨by linarith, by linarith⟩

/-! ### Rounding -/

/-- The code of a number with a given unit exponent. -/
theorem nearestCode_eq {q : ℤ} {m : ℕ} (hn : 0 < n) (hd : 0 < d)
    (hq : max (Int.log 2 ((n : ℚ) / d) - 52) (-1074) = q)
    (h : Between (m % 2 == 0) (m - 1 / 2) (m + 1 / 2) (n / d / 2 ^ q)) :
    nearestCode n d = (q + 1074).toNat * hidden + m := by
  have hscaled : ((n * twoTo (-q).toNat : ℕ) : ℚ) / (d * twoTo q.toNat : ℕ) = n / d / 2 ^ q := by
    have hunit : (twoTo (-q).toNat : ℚ) ≠ 0 := by exact_mod_cast (twoTo_pos _).ne'
    have hd : (d : ℚ) ≠ 0 := by exact_mod_cast hd.ne'
    push_cast
    rw [cast_twoTo q]
    field_simp
  have hround : roundHalfEven (n * twoTo (-q).toNat) (d * twoTo q.toNat) = m := by
    refine roundHalfEven_of_between (Nat.mul_pos hd (twoTo_pos _)) ?_
    rw [hscaled]
    exact h
  unfold nearestCode
  rw [if_neg hn.ne', floorLog2_eq_log hn hd, hq]
  dsimp only
  rw [hround]

/-- The numbers of the interval are rounded to the double. -/
theorem nearestCode_of_covers (hn : 0 < n) (hd : 0 < d) (hpos : 0 < x.significand)
    (h : x.Covers (n / d)) : nearestCode n d = x.magnitude := by
  rcases unit_cases hpos h with hq | ⟨hq, hleast, hpower, hless⟩
  · have hunits := (covers_iff hpos).1 h
    have hbelow := x.below_le
    rw [nearestCode_eq hn hd hq (hunits.mono (by linarith) le_rfl), magnitude_eq]
  · -- One step of the exponent counts as much as a significand of a power of two.
    have hcode : (x.exponent + 1074).toNat = (x.exponent - 1 + 1074).toNat + 1 := by omega
    rw [nearestCode_eq hn hd hq (between_of_below hpower hleast hless h), magnitude_eq, hpower,
      hcode, Nat.add_mul]
    omega

/-- A quotient of the interval is rounded to the double. -/
theorem ofQuotient_of_covers (hx : x.isFinite = true) (hn : 0 < n) (hd : 0 < d)
    (hpos : 0 < x.significand) (h : x.Covers (n / d)) : ofQuotient x.negative n d = x := by
  have hlt := magnitude_lt_of_isFinite hx
  obtain ⟨negative, magnitude, hmagnitude⟩ := x
  simp only [ofQuotient, nearestCode_of_covers hn hd hpos h, mk.injEq, true_and]
  exact Nat.min_eq_left hlt.le

/-! ### Decimals -/

/-- The numbers of the interval are at least half the least unit. -/
theorem half_le_of_covers (hpos : 0 < x.significand) (h : x.Covers v) : 2 ^ (-1075 : ℤ) ≤ v := by
  have hunit : (0 : ℚ) < 2 ^ x.exponent := by positivity
  obtain ⟨hlow, -⟩ := ((covers_iff hpos).1 h).bounds
  have hbelow := x.below_le
  have hsome : (1 : ℚ) ≤ x.significand := by exact_mod_cast hpos
  have hleast := x.le_exponent
  calc (2 : ℚ) ^ (-1075 : ℤ) ≤ 2 ^ (x.exponent - 1) := by gcongr <;> [norm_num; omega]
    _ = 1 / 2 * 2 ^ x.exponent := by
      rw [zpow_sub_one₀ two_ne_zero]
      ring
    _ ≤ v := by
      rw [← le_div_iff₀ hunit]
      linarith

/-- A decimal of the interval is rounded to the double: its exponent is not beyond the bounds at
which the result is known. -/
theorem ofDecimal_of_covers (hx : x.isFinite = true) (hpos : 0 < x.significand)
    (h : x.Covers (n * 10 ^ e)) : ofDecimal x.negative n e = x := by
  have hlow := half_le_of_covers hpos h
  have hhigh := lt_of_covers hpos h
  have hn : 0 < n := by
    rcases Nat.eq_zero_or_pos n with rfl | hn
    · rw [Nat.cast_zero, zero_mul] at hlow
      exact absurd hlow (not_le.2 (by positivity))
    · exact hn
  -- Beyond two bounds the exponent alone gives the result. The interval lies between them.
  have hlarge : ¬400 < e := by
    intro hlarge
    have hexponent := exponent_le hx
    have hbound : (2 : ℚ) ^ (x.exponent + 53) ≤ 10 ^ e := two_zpow_le_ten_zpow (by omega) (by omega)
    have hone : (10 : ℚ) ^ e ≤ n * 10 ^ e :=
      le_mul_of_one_le_left (by positivity) (by exact_mod_cast hn)
    linarith
  have hsmall : ¬e < -(401 + (n.log2 : ℤ)) := by
    intro hsmall
    obtain ⟨-, hdigits⟩ := log2_bounds hn
    have hless : (n : ℚ) * 10 ^ e < 2 ^ (-1075 : ℤ) :=
      calc (n : ℚ) * 10 ^ e < 2 ^ ((n.log2 : ℤ) + 1) * 10 ^ e := by gcongr
        _ ≤ 2 ^ ((n.log2 : ℤ) + 1) * 2 ^ (-1075 - ((n.log2 : ℤ) + 1)) := by
          gcongr
          exact ten_zpow_le_two_zpow_of_nonpos (by omega) (by omega)
        _ = 2 ^ (-1075 : ℤ) := by
          rw [← zpow_add₀ two_ne_zero]
          congr 1
          omega
    linarith
  have hquotient : ((n * tenTo e.toNat : ℕ) : ℚ) / (tenTo (-e).toNat : ℕ) = n * 10 ^ e := by
    have hunit : (tenTo (-e).toNat : ℚ) ≠ 0 := by exact_mod_cast (tenTo_pos _).ne'
    push_cast
    rw [cast_tenTo e]
    field_simp
  rw [← hquotient] at h
  unfold ofDecimal
  rw [if_neg hn.ne', if_neg hlarge, if_neg hsmall]
  exact ofQuotient_of_covers hx (Nat.mul_pos hn (tenTo_pos _)) (tenTo_pos _) hpos h

end Double

end Roster
