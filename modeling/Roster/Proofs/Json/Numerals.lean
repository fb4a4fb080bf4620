import Roster.Json.Printer
import Roster.Proofs.Json.Grammar
import Roster.Proofs.Number.Positional

/-!
# `Roster.Proofs.Json.Numerals`: numbers are written as numerals of JSON

Every numeral of the grammar is read as the double nearest to it (`IsNumeral.read?_eq`), by the
reader of numerals that knows nothing of JSON. What is written for a whole number
(`isNumeral_integerNumeral`) and for a finite double (`isNumeral_doubleNumeral`) is such a numeral:
no zero stands in front of another digit, and a point has digits on both sides. The number that is
nearest to the numeral of a double is the double, with its sign and all its bits, whether it is
written with an exponent or without.

As for numbers without an exponent, only the value of what is written counts, and this is the value
of the shortest decimal (`isDecimal_scientificNumeral`).
-/

set_option autoImplicit false

namespace Roster

open Text

namespace Json

open Numeral

variable {cs mark rest text whole fraction point digits : List Char} {x : Double} {e : Int}

/-! ### Reading -/

/-- Digits are read as what they stand for. -/
theorem IsDigits.readDigits_eq (h : IsDigits digits) :
    readDigits digits = some (digitsValue digits) := by
  have hall : digits.all isAsciiDigit = true := List.all_eq_true.2 h.2
  simp [readDigits, h.1, hall]

/-- Digits start with a digit. -/
theorem IsDigits.exists_cons (h : IsDigits digits) :
    ∃ c more, digits = c :: more ∧ isAsciiDigit c = true := by
  obtain ⟨c, more, rfl⟩ := List.exists_cons_of_ne_nil h.1
  exact ⟨c, more, rfl, h.2 c List.mem_cons_self⟩

/-- Digits end where no digit stands. -/
theorem takeWhile_digits (h : ∀ c ∈ digits, isAsciiDigit c = true)
    (hrest : ∀ c ∈ rest.head?, isAsciiDigit c = false) :
    (digits ++ rest).takeWhile isAsciiDigit = digits ∧
      (digits ++ rest).dropWhile isAsciiDigit = rest := by
  rw [List.takeWhile_append_of_pos h, List.dropWhile_append_of_pos h]
  cases rest with
  | nil => simp
  | cons c rest => simp [hrest c rfl]

namespace IsExponent

/-- An exponent is read as its value, whichever way its sign is written. -/
theorem readExponent_eq (h : IsExponent mark e) : readExponent mark = some e := by
  have hmarks : ∀ {c : Char}, c = 'e' ∨ c = 'E' → (c == 'e' || c == 'E') = true := by
    rintro c (rfl | rfl) <;> decide
  cases h with
  | none => rfl
  | bare hmark h =>
    obtain ⟨c, more, rfl, hc⟩ := h.exists_cons
    -- The first digit is no sign.
    have hminus : c ≠ '-' := by
      rintro rfl
      cases hc
    have hplus : c ≠ '+' := by
      rintro rfl
      cases hc
    simp [readExponent, hmarks hmark, hminus, hplus, h.readDigits_eq]
  | plus hmark h | minus hmark h => simp [readExponent, hmarks hmark, h.readDigits_eq]

/-- An exponent starts with a letter. -/
theorem head_mark (h : IsExponent mark e) : ∀ c ∈ mark.head?, c = 'e' ∨ c = 'E' := by
  cases h <;> simp_all

end IsExponent

/-- What stands behind the whole digits of a numeral starts with no digit. -/
theorem head_point (hfraction : IsFraction point fraction) (hexponent : IsExponent mark e) :
    ∀ c ∈ (point ++ mark).head?, isAsciiDigit c = false := by
  intro c hc
  cases hfraction with
  | none => rcases hexponent.head_mark c hc with rfl | rfl <;> decide
  | point h =>
    cases hc
    decide

/-- A reader of numerals finds the parts again, whatever sign it has read before. It takes digits
while it can, so it has to be shown that each part is followed by something else than a digit. -/
theorem readUnsigned_parts (negative : Bool) (hwhole : IsWhole whole)
    (hfraction : IsFraction point fraction) (hexponent : IsExponent mark e) :
    readUnsigned negative (whole ++ (point ++ mark))
      = some (ofDigits negative whole fraction e) := by
  obtain ⟨htake, hdrop⟩ :=
    takeWhile_digits hwhole.isDigits.2 (head_point hfraction hexponent)
  have hne := hwhole.isDigits.1
  unfold readUnsigned
  rw [htake, hdrop]
  cases hfraction with
  | none =>
    dsimp only
    split
    · -- An exponent starts with no point.
      rename_i hpoint
      rcases hexponent.head_mark '.' (by simpa using congrArg List.head? hpoint) with h | h <;>
        cases h
    · simp [hne, hexponent.readExponent_eq]
  | point h =>
    -- The digits behind the point end where the exponent starts.
    have hmark : ∀ c ∈ mark.head?, isAsciiDigit c = false := by
      intro c hc
      rcases hexponent.head_mark c hc with rfl | rfl <;> decide
    obtain ⟨htake', hdrop'⟩ := takeWhile_digits h.2 hmark
    simp [htake', hdrop', hne, hexponent.readExponent_eq]

/-- A numeral of JSON is a numeral, of the double nearest to it. The grammar of JSON is the narrower
one, and the reader need not check what it rules out. -/
theorem IsNumeral.read?_eq (h : IsNumeral text x) :
    Numeral.read? (String.ofList text) = some x := by
  cases h with
  | intro hsign hwhole hfraction hexponent =>
    have hread := fun negative => readUnsigned_parts negative hwhole hfraction hexponent
    rw [Numeral.read?, String.toList_ofList]
    cases hsign with
    | minus => exact hread true
    | none =>
      -- Without a sign the text starts with a digit, and the reader takes nothing off.
      obtain ⟨c, more, rfl, hc⟩ := hwhole.isDigits.exists_cons
      rw [List.nil_append]
      split
      · rename_i heq
        cases heq
        cases hc
      · rename_i heq
        cases heq
        cases hc
      · exact hread false

/-! ### Digits without a zero in front -/

/-- The digits of a number that is not zero start with no zero. -/
theorem exists_decimalDigits {n : Nat} (hn : 0 < n) :
    ∃ first more, decimalDigits n = first :: more ∧ first ≠ '0' := by
  induction n using Nat.strong_induction_on with
  | _ n ih =>
    rw [decimalDigits]
    by_cases hsmall : n < 10
    · rw [Nat.toDigits_of_lt_base hsmall]
      exact ⟨_, [], rfl, by simpa using hn.ne'⟩
    · obtain ⟨first, more, hdigits, hfirst⟩ := ih (n / 10) (by omega) (by omega)
      rw [decimalDigits] at hdigits
      rw [Nat.toDigits_of_base_le (by decide) (by omega), hdigits]
      exact ⟨first, _, rfl, hfirst⟩

/-- The digits of a number are digits, at least one. -/
theorem isDigits_decimalDigits (n : Nat) : IsDigits (decimalDigits n) :=
  ⟨decimalDigits_ne_nil n, fun _ => isAsciiDigit_of_mem_decimalDigits⟩

/-- Digits are the whole part of a numeral if no zero stands in front of another digit. -/
theorem IsDigits.isWhole (h : IsDigits cs) (hhead : cs.length = 1 ∨ cs.head? ≠ some '0') :
    IsWhole cs := by
  obtain ⟨c, more, rfl, hc⟩ := h.exists_cons
  by_cases hzero : c = '0'
  · subst hzero
    rcases hhead with hlength | hhead
    · obtain rfl : more = [] := by simpa using hlength
      exact .zero
    · exact absurd rfl hhead
  · exact .digits hc hzero fun c' hc' => h.2 c' (List.mem_cons_of_mem c hc')

/-- The digits of a number have no zero in front. -/
theorem isWhole_decimalDigits (n : Nat) : IsWhole (decimalDigits n) := by
  rcases Nat.eq_zero_or_pos n with rfl | hn
  · exact .zero
  · obtain ⟨first, more, hdigits, hfirst⟩ := exists_decimalDigits hn
    refine (isDigits_decimalDigits n).isWhole (.inr ?_)
    simpa [hdigits] using hfirst

/-- Zeros are put in front of digits only where one has to stand in front of the point. There are
just enough zeros for one digit before the point, so either that digit is the only one or no zero
was needed. -/
theorem isWhole_withPoint {n places : Nat} (hn : 0 < n) (hplain : IsPlain (withPoint n places) whole
    fraction) : IsWhole whole := by
  obtain ⟨first, more, hdigits, hfirst⟩ := exists_decimalDigits hn
  have hwhole := hplain.takeWhile_eq
  have hall : ∀ c ∈ zeros (places + 1 - (decimalDigits n).length) ++ decimalDigits n,
      isAsciiDigit c = true := by
    intro c hc
    rcases List.mem_append.1 hc with hc | hc
    · exact isAsciiDigit_of_mem_zeros hc
    · exact isAsciiDigit_of_mem_decimalDigits hc
  -- Up to the point there are digits alone, so the part before it is what is taken.
  have hpoint : ∀ (front : List Char) {tail : List Char}, (∀ c ∈ front, isAsciiDigit c = true) →
      (front ++ '.' :: tail).takeWhile isAsciiDigit = front := fun front tail hfront =>
    (takeWhile_digits hfront (by simp; decide)).1
  rw [withPoint] at hwhole
  rw [hpoint _ fun c hc => hall c (List.mem_of_mem_take hc)] at hwhole
  refine IsDigits.isWhole ⟨hplain.whole_ne_nil, hplain.whole_digits⟩ ?_
  rw [← hwhole]
  by_cases hshort : (decimalDigits n).length ≤ places
  · -- All digits stand behind the point, and a single zero is put before it.
    left
    simp only [List.length_take, List.length_append, zeros, List.length_replicate]
    omega
  · -- No zero is put in front, so the part starts with the first digit, which is not zero.
    right
    have hnone : places + 1 - (decimalDigits n).length = 0 := by omega
    have hsome : more.length + 1 - places ≠ 0 := by
      rw [hdigits, List.length_cons] at hshort
      omega
    rw [hnone, hdigits]
    simpa [zeros, List.head?_take, hsome] using hfirst

/-! ### Writing -/

/-- A whole number is written as a numeral. -/
theorem isNumeral_integerNumeral (n : Int) :
    IsNumeral (integerNumeral n) (ofDigits (n < 0) (decimalDigits n.natAbs) [] 0) := by
  have hwhole := isWhole_decimalDigits n.natAbs
  unfold integerNumeral
  by_cases hsign : n < 0
  · have hparts := IsNumeral.intro .minus hwhole .none .none
    simpa [hsign] using hparts
  · have hparts := IsNumeral.intro .none hwhole .none .none
    simpa [hsign] using hparts

/-- Whether a text is a numeral without a sign that has the value of a decimal. -/
def IsDecimal (text : List Char) (d : Scientific) : Prop :=
  ∃ whole point fraction mark e, text = whole ++ (point ++ mark) ∧ IsWhole whole ∧
    IsFraction point fraction ∧ IsExponent mark e ∧
    (digitsValue (whole ++ fraction) : ℚ) * 10 ^ (e - (fraction.length : ℤ))
      = d.digits * 10 ^ d.exponent

variable {d : Scientific}

/-- A decimal that is whole is written with a zero behind the point. -/
theorem isDecimal_whole (hd : 0 < d.digits) (hexponent : 0 ≤ d.exponent) :
    IsDecimal (d.positional ++ ['.', '0']) d := by
  obtain ⟨first, more, hdigits, hfirst⟩ := exists_decimalDigits hd
  have hall := isDigits_decimalDigits d.digits
  have hwhole : IsDigits (decimalDigits d.digits ++ zeros d.exponent.toNat) := by
    refine ⟨by simp [hall.1], fun c hc => ?_⟩
    rcases List.mem_append.1 hc with hc | hc
    · exact hall.2 c hc
    · exact isAsciiDigit_of_mem_zeros hc
  refine ⟨_, ['.', '0'], ['0'], [], 0, ?_, hwhole.isWhole (.inr ?_),
    .point ⟨by simp, List.all_eq_true.1 (by decide)⟩, .none, ?_⟩
  · rw [Scientific.positional, if_pos hexponent, List.append_nil]
  · simpa [hdigits] using hfirst
  · -- The zero behind the point multiplies the digits by ten, and the place of it divides by ten.
    have hzero : digitsValue (decimalDigits d.digits ++ zeros d.exponent.toNat ++ ['0'])
        = d.digits * tenTo d.exponent.toNat * tenTo 1 := by
      rw [← digitsValue_decimalDigits d.digits, ← digitsValue_append_zeros,
        ← digitsValue_append_zeros, digitsValue_decimalDigits]
      rfl
    have hnone : (-d.exponent).toNat = 0 := by omega
    rw [hzero, Nat.cast_mul, Nat.cast_mul, cast_tenTo, hnone]
    simp [tenTo]

/-- A decimal that is not whole is written with its digits around the point. -/
theorem isDecimal_point (hd : 0 < d.digits) (hexponent : ¬0 ≤ d.exponent) :
    IsDecimal d.positional d := by
  obtain ⟨whole, fraction, hplain, hvalue⟩ := exists_isPlain_scientific d
  have hwithPoint : d.positional = withPoint d.digits (-d.exponent).toNat := by
    rw [Scientific.positional, if_neg hexponent]
  have hwhole := isWhole_withPoint hd (hwithPoint ▸ hplain)
  by_cases hfraction : fraction = []
  · refine ⟨whole, [], [], [], 0, ?_, hwhole, .none, .none, ?_⟩
    · simpa [hfraction] using hplain.text_eq
    · simpa [hfraction] using hvalue
  · refine ⟨whole, '.' :: fraction, fraction, [], 0, ?_, hwhole,
      .point ⟨hfraction, hplain.fraction_digits⟩, .none, hvalue⟩
    simpa [hfraction] using hplain.text_eq

/-- An exponent is written with its sign. -/
theorem isExponent_signed (e : Int) :
    IsExponent ('e' :: (if e < 0 then '-' else '+') :: decimalDigits e.natAbs) e := by
  have hdigits := isDigits_decimalDigits e.natAbs
  have hvalue := digitsValue_decimalDigits e.natAbs
  by_cases hsign : e < 0
  · have hminus := IsExponent.minus (.inl rfl : 'e' = 'e' ∨ 'e' = 'E') hdigits
    rw [hvalue] at hminus
    rw [if_pos hsign]
    convert hminus using 1
    omega
  · have hplus := IsExponent.plus (.inl rfl : 'e' = 'e' ∨ 'e' = 'E') hdigits
    rw [hvalue] at hplus
    rw [if_neg hsign]
    convert hplus using 1
    omega

/-- A positive decimal is written as a numeral that has its value. It has three forms: with a zero
behind the point, with the point among the digits, and with an exponent. -/
theorem isDecimal_scientificNumeral (hd : 0 < d.digits) : IsDecimal (scientificNumeral d) d := by
  unfold scientificNumeral
  dsimp only
  split
  · split
    · exact isDecimal_whole hd ‹_›
    · exact isDecimal_point hd ‹_›
  · -- One digit stands in front of the point, and it is not zero.
    obtain ⟨first, more, hdigits, hfirst⟩ := exists_decimalDigits hd
    obtain ⟨-, hall⟩ := isDigits_decimalDigits d.digits
    have hsum := digitsValue_decimalDigits d.digits
    rw [hdigits] at hall hsum ⊢
    obtain ⟨hdigit, hmore⟩ := List.forall_mem_cons.1 hall
    have hwhole : IsWhole [first] := .digits hdigit hfirst (by simp)
    have hvalue : (digitsValue ([first] ++ more) : ℚ)
          * 10 ^ (d.exponent + (first :: more).length - 1 - (more.length : ℤ))
        = d.digits * 10 ^ d.exponent := by
      rw [List.singleton_append, hsum, List.length_cons]
      congr 2
      push_cast
      ring
    cases more with
    | nil => exact ⟨[first], [], [], _, _, rfl, hwhole, .none, isExponent_signed _, hvalue⟩
    | cons second more =>
      exact ⟨[first], '.' :: second :: more, second :: more, _, _, rfl, hwhole,
        .point ⟨List.cons_ne_nil _ _, hmore⟩, isExponent_signed _, hvalue⟩

/-- A finite double is written as a numeral that it is nearest to. The numeral has the value of the
shortest decimal, and the double is the one nearest to that. -/
theorem isNumeral_doubleNumeral (hx : x.isFinite = true) : IsNumeral (doubleNumeral x) x := by
  have hsign : IsSign x.signChars x.negative := by
    rw [Double.signChars]
    cases x.negative with
    | true => exact .minus
    | false => exact .none
  unfold doubleNumeral
  rw [if_neg (by simp [hx])]
  cases hzero : x.isZero with
  | true =>
    have hdigits : IsDigits ['0'] := ⟨by simp, List.all_eq_true.1 (by decide)⟩
    have hparts := IsNumeral.intro hsign .zero (.point hdigits) .none
    have hvalue : ofDigits x.negative ['0'] ['0'] 0 = x := by
      obtain ⟨negative, magnitude, hmagnitude⟩ := x
      have hcode : magnitude = 0 := by simpa [Double.isZero] using hzero
      subst hcode
      rfl
    rw [hvalue] at hparts
    exact hparts
  | false =>
    have hpos := Double.significand_pos hzero
    have hcovers := Double.covers_shortest .toEven hx hpos
    have hdigits : 0 < (x.shortest .toEven).digits := by
      rcases Nat.eq_zero_or_pos (x.shortest .toEven).digits with hnone | hsome
      · have hlow := Double.half_le_of_covers hpos hcovers
        rw [hnone, Nat.cast_zero, zero_mul] at hlow
        exact absurd hlow (not_le.2 (by positivity))
      · exact hsome
    obtain ⟨whole, point, fraction, mark, e, htext, hwhole, hfraction, hexponent, hvalue⟩ :=
      isDecimal_scientificNumeral hdigits
    have hparts := IsNumeral.intro hsign hwhole hfraction hexponent
    -- Only the value of what is written counts, and it is that of the shortest decimal.
    rw [← hvalue] at hcovers
    have hnearest : ofDigits x.negative whole fraction e = x :=
      Double.ofDecimal_of_covers hx hpos hcovers
    rw [hnearest, ← htext] at hparts
    simpa using hparts

end Json

end Roster
