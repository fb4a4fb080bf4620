import Mathlib.Data.List.TakeWhile
import Roster.Number.Numeral
import Roster.Number.Positional

/-!
# `Roster.Proofs.Number.Numeral`: numerals of digits

The numerals that this program writes have no exponent: they are digits, and perhaps a point and
more digits. `Numeral.IsPlain` says so of a text, together with the digits of its two parts, and
`IsPlain.readUnsigned_eq` that a reader of numerals finds these parts again.

A decimal is written with zeros behind or before its digits. What they do to the value is
`digitsValue_append_zeros` and `digitsValue_zeros_append`, and `exists_isPlain_withPoint` puts
together what is written with a point.
-/

set_option autoImplicit false

namespace Roster

open Text

/-! ### Digits -/

/-- The digits of a number are digits. -/
theorem isAsciiDigit_of_mem_decimalDigits {n : Nat} {c : Char} (h : c ∈ decimalDigits n) :
    isAsciiDigit c = true :=
  Nat.isDigit_of_mem_toDigits (by decide) (by decide) h

/-- Zeros are digits. -/
theorem isAsciiDigit_of_mem_zeros {n : Nat} {c : Char} (h : c ∈ zeros n) :
    isAsciiDigit c = true := by
  rw [List.eq_of_mem_replicate h]
  rfl

/-- Every number has a digit, zero too. -/
theorem decimalDigits_ne_nil (n : Nat) : decimalDigits n ≠ [] := Nat.toDigits_ne_nil

namespace Numeral

/-- The digits of a number stand for it. -/
theorem digitsValue_decimalDigits (n : Nat) : digitsValue (decimalDigits n) = n :=
  Nat.ofDigitChars_ten_toDigits

/-- Zeros behind digits are a power of ten. -/
theorem digitsValue_append_zeros (cs : List Char) (k : Nat) :
    digitsValue (cs ++ zeros k) = digitsValue cs * tenTo k := by
  show Nat.ofDigitChars 10 (cs ++ List.replicate k '0') 0 = Nat.ofDigitChars 10 cs 0 * 10 ^ k
  rw [Nat.ofDigitChars_append, Nat.ofDigitChars_replicate_zero, Nat.mul_comm]

/-- Zeros before digits count nothing. -/
theorem digitsValue_zeros_append (cs : List Char) (k : Nat) :
    digitsValue (zeros k ++ cs) = digitsValue cs := by
  show Nat.ofDigitChars 10 (List.replicate k '0' ++ cs) 0 = Nat.ofDigitChars 10 cs 0
  rw [Nat.ofDigitChars_append, Nat.ofDigitChars_replicate_zero, Nat.mul_zero]

/-- What is read has the sign it was read with. -/
theorem negative_ofDigits (negative : Bool) (whole fraction : List Char) (e : Int) :
    (ofDigits negative whole fraction e).negative = negative := by
  unfold ofDigits Double.ofDecimal
  split_ifs <;> rfl

/-! ### Digits and a point -/

/-- Whether a text is digits, followed by a point and the digits of a fraction if there are
any. -/
structure IsPlain (text whole fraction : List Char) : Prop where
  text_eq : text = whole ++ if fraction = [] then [] else '.' :: fraction
  whole_ne_nil : whole ≠ []
  whole_digits : ∀ c ∈ whole, isAsciiDigit c = true
  fraction_digits : ∀ c ∈ fraction, isAsciiDigit c = true

namespace IsPlain

variable {text whole fraction : List Char}

/-- It starts with a digit, so it has no sign. -/
theorem exists_cons (h : IsPlain text whole fraction) :
    ∃ c cs, text = c :: cs ∧ isAsciiDigit c = true := by
  obtain ⟨rfl, hne, hwhole, -⟩ := h
  obtain ⟨c, cs, rfl⟩ := List.exists_cons_of_ne_nil hne
  exact ⟨c, _, rfl, hwhole c List.mem_cons_self⟩

/-- The digits in front are those of the whole part. -/
theorem takeWhile_eq (h : IsPlain text whole fraction) : text.takeWhile isAsciiDigit = whole := by
  obtain ⟨rfl, -, hwhole, -⟩ := h
  have hpoint : ¬isAsciiDigit '.' = true := by decide
  rw [List.takeWhile_append_of_pos hwhole]
  split <;> simp [hpoint]

/-- Behind them the point stands, or nothing. -/
theorem dropWhile_eq (h : IsPlain text whole fraction) :
    text.dropWhile isAsciiDigit = if fraction = [] then [] else '.' :: fraction := by
  obtain ⟨rfl, -, hwhole, -⟩ := h
  have hpoint : ¬isAsciiDigit '.' = true := by decide
  rw [List.dropWhile_append_of_pos hwhole]
  split <;> simp [hpoint]

/-- A reader of numerals finds the two parts, whatever sign it has read before. -/
theorem readUnsigned_eq (h : IsPlain text whole fraction) (negative : Bool) :
    readUnsigned negative text = some (ofDigits negative whole fraction 0) := by
  have hne := h.whole_ne_nil
  have hdigits : fraction.takeWhile isAsciiDigit = fraction :=
    List.takeWhile_eq_self_iff.2 h.fraction_digits
  have hend : fraction.dropWhile isAsciiDigit = [] :=
    List.dropWhile_eq_nil_iff.2 h.fraction_digits
  unfold readUnsigned
  rw [h.takeWhile_eq, h.dropWhile_eq]
  split_ifs with hnone
  · simp [hnone, hne, readExponent]
  · simp [hne, hdigits, hend, readExponent]

/-- It is a numeral as a whole. -/
theorem read?_eq {s : String} (h : IsPlain s.toList whole fraction) :
    read? s = some (ofDigits false whole fraction 0) := by
  obtain ⟨c, cs, htext, hdigit⟩ := h.exists_cons
  have hread := h.readUnsigned_eq false
  rw [read?]
  rw [htext] at hread ⊢
  -- The first character is a digit, so no sign is taken off.
  split
  · rename_i heq
    cases heq
    cases hdigit
  · rename_i heq
    cases heq
    cases hdigit
  · exact hread

end IsPlain

/-- Digits with a point before the last of them are those of the number. Zeros are put in front
until there is a digit before the point, and they do not count for the value. -/
theorem exists_isPlain_withPoint (n : Nat) {places : Nat} (hplaces : 0 < places) :
    ∃ whole fraction, IsPlain (withPoint n places) whole fraction ∧
      fraction.length = places ∧ digitsValue (whole ++ fraction) = n := by
  have hdigits : ∀ c ∈ zeros (places + 1 - (decimalDigits n).length) ++ decimalDigits n,
      isAsciiDigit c = true := by
    intro c hc
    rcases List.mem_append.1 hc with hc | hc
    · exact isAsciiDigit_of_mem_zeros hc
    · exact isAsciiDigit_of_mem_decimalDigits hc
  have hvalue := digitsValue_zeros_append (decimalDigits n) (places + 1 - (decimalDigits n).length)
  rw [digitsValue_decimalDigits] at hvalue
  -- The zeros in front leave at least one digit before the point.
  have hlength : places + 1
      ≤ (zeros (places + 1 - (decimalDigits n).length) ++ decimalDigits n).length := by
    rw [List.length_append, zeros, List.length_replicate]
    omega
  unfold withPoint
  dsimp only
  generalize zeros (places + 1 - (decimalDigits n).length) ++ decimalDigits n = padded
    at hdigits hvalue hlength ⊢
  have hfraction : (padded.drop (padded.length - places)).length = places := by
    rw [List.length_drop]
    omega
  have hne : padded.drop (padded.length - places) ≠ [] := by
    intro hnil
    rw [hnil] at hfraction
    exact hplaces.ne hfraction
  refine ⟨padded.take (padded.length - places), padded.drop (padded.length - places),
    ⟨by rw [if_neg hne], ?_, ?_, ?_⟩, hfraction, by rw [List.take_append_drop, hvalue]⟩
  · intro hnil
    have hwhole := congrArg List.length hnil
    rw [List.length_take, List.length_nil] at hwhole
    omega
  · exact fun c hc => hdigits c (List.mem_of_mem_take hc)
  · exact fun c hc => hdigits c (List.mem_of_mem_drop hc)

end Numeral

end Roster
