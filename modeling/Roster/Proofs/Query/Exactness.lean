import Mathlib.Algebra.BigOperators.Group.List.Basic
import Mathlib.Algebra.Order.BigOperators.Group.List
import Mathlib.Algebra.Order.BigOperators.Group.Multiset
import Roster.Proofs.Decimal.Converting
import Roster.Query.Total

/-!
# `Roster.Proofs.Query.Exactness`: which sums are exact

A sum in decimals can go wrong in two places: a number may be converted to another decimal than its
shortest numeral, and a partial sum may be rounded because it has no room. Neither shows in the
result, which is there all the same. `decimalSum_exact` says that these are the only two: if the
numbers can be recovered and all partial sums have room, the sum in decimals is the sum of the
numerals, in this order and in all others that have room as well.

The induction is over the list from behind, so that the total so far is a sum of its own. It
carries the scale besides the value: the total has no more places than any way to write all the
numbers that it was added up from.
-/

set_option autoImplicit false

namespace Roster

open Decimal

variable {tie : Tie} {xs ys : List Double} {x : Double} {places : ℕ}

/-- The exact sum of the numerals of doubles. -/
def numeralSum (tie : Tie) (xs : List Double) : ℚ := (xs.map (Double.numeral tie)).sum

/-- Whether all doubles have numerals with so many places. -/
def AllHavePlaces (tie : Tie) (places : ℕ) (xs : List Double) : Prop :=
  ∀ x ∈ xs, HasPlaces places (x.numeral tie)

/-- Whether 96 bits have room for the sum of the numerals, with the places that they have. -/
def HasRoom (tie : Tie) (xs : List Double) : Prop :=
  ∃ places, AllHavePlaces tie places xs ∧ |numeralSum tie xs| * 10 ^ places < 2 ^ 96

/-- The last number of a sum is added last. -/
theorem numeralSum_append_singleton (tie : Tie) (xs : List Double) (x : Double) :
    numeralSum tie (xs ++ [x]) = numeralSum tie xs + x.numeral tie := by
  simp [numeralSum]

/-- The last number of a sum in decimals is converted and added last, if all before it have a
sum. -/
theorem decimalSum_append_singleton (xs : List Double) (x : Double) :
    decimalSum (xs ++ [x])
      = (decimalSum xs).bind fun total => (ofDouble? x).bind fun d => total.add? d := by
  simp [decimalSum, List.foldlM_append]

/-- Zeros do not count. -/
theorem numeralSum_filter (tie : Tie) (xs : List Double) :
    numeralSum tie (xs.filter fun x => !x.isZero) = numeralSum tie xs := by
  induction xs with
  | nil => rfl
  | cons x xs ih =>
    unfold numeralSum at ih ⊢
    cases hzero : x.isZero with
    | true =>
      have hnumeral : x.numeral tie = 0 := Double.numeral_of_isZero hzero
      rw [List.filter_cons_of_neg (by simp [hzero]), ih, List.map_cons, List.sum_cons, hnumeral,
        zero_add]
    | false =>
      rw [List.filter_cons_of_pos (by simp [hzero]), List.map_cons, List.map_cons, List.sum_cons,
        List.sum_cons, ih]

/-- A list that has room with all its numbers, whatever their signs, has room in every part. -/
theorem hasRoom_of_abs_sum (hplaces : AllHavePlaces tie places xs)
    (hroom : (xs.map fun x => |x.numeral tie|).sum * 10 ^ places < 2 ^ 96) (h : ys <+: xs) :
    HasRoom tie ys := by
  refine ⟨places, fun y hy => hplaces y (h.subset hy), lt_of_le_of_lt ?_ hroom⟩
  obtain ⟨rest, rfl⟩ := h
  gcongr
  have hparts : |numeralSum tie ys| ≤ (ys.map fun x => |x.numeral tie|).sum := by
    have habs := Multiset.abs_sum_le_sum_abs (s := (ys.map (Double.numeral tie) : Multiset ℚ))
    rw [Multiset.map_coe, Multiset.sum_coe, Multiset.sum_coe, List.map_map] at habs
    exact habs
  have hrest : 0 ≤ (rest.map fun x => |x.numeral tie|).sum :=
    List.sum_nonneg fun r hr => by
      obtain ⟨x, -, rfl⟩ := List.mem_map.1 hr
      exact abs_nonneg _
  rw [List.map_append, List.sum_append]
  linarith

/-- The sum of the numerals, if all can be recovered and all partial sums have room. No more places
are needed than the numbers have, which is what keeps the next sum in its room. -/
theorem exists_decimalSum (hfinite : ∀ x ∈ xs, x.isFinite = true)
    (hrecoverable : ∀ x ∈ xs, x.Recoverable tie) (hroom : ∀ ys, ys <+: xs → HasRoom tie ys) :
    ∃ d, decimalSum xs = some d ∧ d.value = numeralSum tie xs ∧
      ∀ places, AllHavePlaces tie places xs → d.scale ≤ places := by
  induction xs using List.reverseRecOn with
  | nil => exact ⟨zero, rfl, by simp [numeralSum], fun places _ => Nat.zero_le _⟩
  | append_singleton xs x ih =>
    obtain ⟨total, htotal, hvalue, hscale⟩ := ih
      (fun y hy => hfinite y (List.mem_append_left _ hy))
      (fun y hy => hrecoverable y (List.mem_append_left _ hy))
      (fun ys hys => hroom ys (hys.trans (List.prefix_append _ _)))
    have hx : x ∈ xs ++ [x] := by simp
    obtain ⟨d, hd, hnumeral, hreduced⟩ :=
      (hrecoverable x hx).exists_ofDouble? (hfinite x hx)
    -- What bounds the places of all numbers bounds the scales of both operands.
    have hscales (places : ℕ) (h : AllHavePlaces tie places (xs ++ [x])) :
        total.scale ≤ places ∧ d.scale ≤ places :=
      ⟨hscale places fun y hy => h y (List.mem_append_left _ hy),
        hreduced.scale_le (hnumeral ▸ h x hx)⟩
    obtain ⟨places, hplaces, hfits⟩ := hroom _ List.prefix_rfl
    obtain ⟨htotalScale, hdScale⟩ := hscales places hplaces
    rw [numeralSum_append_singleton, ← hvalue, ← hnumeral] at hfits
    obtain ⟨sum, hsum, hsumValue, hsumScale⟩ := exists_add? htotalScale hdScale hfits
    refine ⟨sum, ?_, ?_, fun places h => ?_⟩
    · rw [decimalSum_append_singleton, htotal, Option.bind_some, hd, Option.bind_some, hsum]
    · rw [hsumValue, hvalue, hnumeral, numeralSum_append_singleton]
    · exact hsumScale.trans (max_le (hscales places h).1 (hscales places h).2)

/-- The sum in decimals is the sum of the shortest numerals. It is the same in every order in which
the partial sums have room, and the numeral of the only number that is not zero. -/
theorem decimalSum_exact (tie : Tie) (xs : List Double) (hfinite : ∀ x ∈ xs, x.isFinite = true)
    (hrecoverable : ∀ x ∈ xs, x.Recoverable tie) (hroom : ∀ ys, ys <+: xs → HasRoom tie ys) :
    ∃ d, decimalSum xs = some d ∧ d.value = numeralSum tie xs ∧
      (∀ ys, ys.Perm xs → (∀ zs, zs <+: ys → HasRoom tie zs) →
        ∃ d', decimalSum ys = some d' ∧ d'.value = d.value) ∧
      ∀ x, xs.filter (fun x => !x.isZero) = [x] → d.value = x.numeral tie := by
  obtain ⟨d, hd, hvalue, -⟩ := exists_decimalSum hfinite hrecoverable hroom
  refine ⟨d, hd, hvalue, fun ys hperm hroom' => ?_, fun x hx => ?_⟩
  · obtain ⟨d', hd', hvalue', -⟩ := exists_decimalSum
      (fun y hy => hfinite y (hperm.mem_iff.1 hy))
      (fun y hy => hrecoverable y (hperm.mem_iff.1 hy)) hroom'
    have hsum : numeralSum tie ys = numeralSum tie xs :=
      (hperm.map (Double.numeral tie)).sum_eq
    exact ⟨d', hd', by rw [hvalue', hvalue, hsum]⟩
  · rw [hvalue, ← numeralSum_filter, hx]
    simp [numeralSum]

/-- `0.1` and `0.2` add up to `0.3`, in both orders. -/
theorem decimalSum_exact_tenths :
    let tenth : Double := { negative := false, magnitude := 0x3FB999999999999A }
    let fifth : Double := { negative := false, magnitude := 0x3FC999999999999A }
    ∃ d, decimalSum [tenth, fifth] = some d ∧ d.value = 3 / 10 ∧
      ∃ d', decimalSum [fifth, tenth] = some d' ∧ d'.value = 3 / 10 := by
  intro tenth fifth
  have htenth : tenth.absNumeral .up = (10 ^ 15 : ℕ) / 10 ^ 16 := by
    have hshortest : tenth.shortest .up = { digits := 1, exponent := -1 } := by decide +kernel
    rw [Double.absNumeral, if_neg (by decide), hshortest]
    norm_num
  have hfifth : fifth.absNumeral .up = (2 * 10 ^ 15 : ℕ) / 10 ^ 16 := by
    have hshortest : fifth.shortest .up = { digits := 2, exponent := -1 } := by decide +kernel
    rw [Double.absNumeral, if_neg (by decide), hshortest]
    norm_num
  have hrecoverable : ∀ x ∈ [tenth, fifth], x.Recoverable .up := by
    rw [List.forall_mem_cons, List.forall_mem_singleton]
    exact ⟨Double.recoverable_of_le (by decide) (by decide) (by decide) (by decide) (by decide)
        (by decide) htenth,
      Double.recoverable_of_le (by decide) (by decide) (by decide) (by decide) (by decide)
        (by decide) hfifth⟩
  have htenth : tenth.numeral .up = 1 / 10 := by
    rw [Double.numeral, htenth]
    norm_num [withSign, tenth]
  have hfifth : fifth.numeral .up = 2 / 10 := by
    rw [Double.numeral, hfifth]
    norm_num [withSign, fifth]
  -- One place is enough for both, and three tenths fit in whatever order they come together.
  have hplaces : AllHavePlaces .up 1 [tenth, fifth] := by
    unfold AllHavePlaces
    rw [List.forall_mem_cons, List.forall_mem_singleton, htenth, hfifth]
    exact ⟨⟨1, by norm_num⟩, ⟨2, by norm_num⟩⟩
  have hroom (ys : List Double) (h : ys <+: [tenth, fifth]) : HasRoom .up ys :=
    hasRoom_of_abs_sum hplaces (by norm_num [htenth, hfifth]) h
  have hroom' (ys : List Double) (h : ys <+: [fifth, tenth]) : HasRoom .up ys :=
    hasRoom_of_abs_sum (fun x hx => hplaces x (by simpa [or_comm] using hx))
      (by norm_num [htenth, hfifth]) h
  obtain ⟨d, hd, hvalue, horder, -⟩ :=
    decimalSum_exact .up [tenth, fifth] (by decide) hrecoverable hroom
  obtain ⟨d', hd', hvalue'⟩ := horder [fifth, tenth] (List.Perm.swap _ _ _) hroom'
  have hsum : d.value = 3 / 10 := by
    rw [hvalue]
    norm_num [numeralSum, htenth, hfifth]
  exact ⟨d, hd, hsum, d', hd', hvalue'.trans hsum⟩

/-- The double written `4096.029` is too far above its numeral: the sum of it alone is
`4096.029000000001`. -/
theorem decimalSum_inexact :
    let x : Double := { negative := false, magnitude := 0x40B000076C8B4396 }
    x.isFinite = true ∧ x.numeral .up = 4096029 / 1000 ∧
      decimalSum [x] = some { coefficient := 4096029000000001, scale := 12 } ∧
      value { coefficient := 4096029000000001, scale := 12 } ≠ numeralSum .up [x] := by
  intro x
  have hnumeral : x.numeral .up = 4096029 / 1000 := by
    have hshortest : x.shortest .up = { digits := 4096029, exponent := -3 } := by decide +kernel
    have hzero : x.isZero = false := by decide
    simp only [Double.numeral, Double.absNumeral, withSign, hshortest, hzero, x]
    norm_num
  refine ⟨by decide, hnumeral, by decide +kernel, ?_⟩
  simp only [numeralSum, List.map_cons, List.map_nil, List.sum_cons, List.sum_nil, hnumeral, value]
  norm_num

end Roster
