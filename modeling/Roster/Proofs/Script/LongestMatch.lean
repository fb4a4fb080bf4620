import Mathlib.Logic.Function.Iterate
import Roster.Proofs.Script.Tiling

/-!
# `Roster.Proofs.Script.LongestMatch`: the longest lexeme is read

What is read at a place is the longest text there that has the form of a token.

* `TokenForm` says which texts these are, and `ReadAs` what each of them is read as. Both are said
  without the reader: a form is a text on its own, and nothing is said about what may follow it.
* `longest_scanAt` compares the reader with them. It goes by the first character, which decides the
  form (`TokenForm.of_sign` and its siblings), because no character starts two. Within a form the
  reader stops where the next character does not go on, and no text that is longer has the form.
* `next_longest_match` says it of what a reader of lexemes is given, behind blanks and comments.
  `skipTrivia_append` shows that there is only one place where these can end.
-/

set_option autoImplicit false

namespace Roster

open Lexer Text

/-! ### Forms of tokens -/

/-- The texts of signs. -/
def signs : List (List Char) :=
  [[';'], ['>'], ['<'], ['>', '='], ['<', '='], ['=', '='], ['!', '=']]

/-- Whether a text has the form of a token. -/
inductive TokenForm : List Char → Prop
  | sign {text : List Char} (h : text ∈ signs) : TokenForm text
  /-- Quotes around anything but quotes. -/
  | string {body : List Char} (h : '"' ∉ body) : TokenForm ('"' :: (body ++ ['"']))
  /-- Digits, and perhaps a point and more digits. -/
  | number {text whole fraction : List Char} (h : Numeral.IsPlain text whole fraction) :
    TokenForm text
  | word {c : Char} {cs : List Char} (hc : startsWord c = true)
    (hcs : ∀ d ∈ cs, continuesWord d = true) : TokenForm (c :: cs)

/-- What a text of the form of a token is read as. A word that is not reserved is a fault. -/
inductive ReadAs : List Char → Except (Position → LexError) Token → Prop
  | semicolon : ReadAs [';'] (.ok .semicolon)
  | relation (r : Relation) : ReadAs r.symbol.toList (.ok (.relation r))
  /-- The value of a string is what stands between its quotes. -/
  | string {body : List Char} (h : '"' ∉ body) :
    ReadAs ('"' :: (body ++ ['"'])) (.ok (.string (String.ofList body)))
  /-- The value of a number is what its text is read as. -/
  | number {text whole fraction : List Char} {n : Double}
    (h : Numeral.IsPlain text whole fraction)
    (hn : Numeral.read? (String.ofList text) = some n) : ReadAs text (.ok (.number n))
  | keyword (w : Keyword) : ReadAs w.text.toList (.ok (.keyword w))
  | unknownWord {c : Char} {cs : List Char} (hc : startsWord c = true)
    (hcs : ∀ d ∈ cs, continuesWord d = true) (h : ∀ w : Keyword, w.text.toList ≠ c :: cs) :
    ReadAs (c :: cs) (.error (.unknownWord (String.ofList (c :: cs))))

/-- Whether a text is the longest one of the form of a token at the front of another text. -/
structure IsLongest (text cs : List Char) : Prop where
  form : TokenForm text
  isPrefix : text <+: cs
  longest : ∀ other, other <+: cs → TokenForm other → other.length ≤ text.length

/-! ### The first character -/

/-- The characters that start signs. -/
def signChars : List Char := [';', '>', '<', '=', '!']

/-- The first character of a sign starts nothing else. -/
theorem exclusive_of_sign {c : Char} (h : c ∈ signChars) :
    c ≠ '"' ∧ isAsciiDigit c = false ∧ startsWord c = false := by
  simp only [signChars, List.mem_cons, List.not_mem_nil, or_false] at h
  rcases h with rfl | rfl | rfl | rfl | rfl <;> decide

/-- No digit starts a word. -/
theorem startsWord_of_isAsciiDigit {c : Char} (h : isAsciiDigit c = true) :
    startsWord c = false := by
  have hcode : 48 ≤ c.toNat ∧ c.toNat ≤ 57 := by
    simpa [isAsciiDigit, Char.le_def, UInt32.le_iff_toNat_le] using h
  have hletter : isAlphabetic c = false := by
    -- The first range of letters starts beyond the digits.
    obtain ⟨later, hranges⟩ : ∃ later, alphabeticRanges = (0x41, 0x5a) :: later := ⟨_, rfl⟩
    have hbeyond : ¬0x41 ≤ c.toNat := by omega
    simp only [isAlphabetic, hranges, CharRange.contains, hbeyond, decide_false, Bool.false_and]
  have hunderscore : c ≠ '_' := by
    rintro rfl
    simp at hcode
  simp [startsWord, hletter, hunderscore]

namespace TokenForm

variable {c : Char} {cs : List Char}

/-- A token that starts with the character of a sign is a sign. -/
theorem of_sign (hc : c ∈ signChars) (h : TokenForm (c :: cs)) : c :: cs ∈ signs := by
  obtain ⟨hquote, hdigit, hletter⟩ := exclusive_of_sign hc
  cases h with
  | sign h => exact h
  | string _ => exact absurd rfl hquote
  | number h =>
    obtain ⟨d, ds, heq, hd⟩ := h.exists_cons
    cases heq
    exact absurd hd (by simp [hdigit])
  | word h _ => exact absurd h (by simp [hletter])

/-- Signs start with the characters of signs. -/
theorem head_mem_of_sign {text : List Char} (h : text ∈ signs) :
    ∃ c cs, text = c :: cs ∧ c ∈ signChars := by
  simp only [signs, List.mem_cons, List.not_mem_nil, or_false] at h
  rcases h with rfl | rfl | rfl | rfl | rfl | rfl | rfl <;> exact ⟨_, _, rfl, by decide⟩

/-- A token that starts with a quote is a string. -/
theorem of_quote (h : TokenForm ('"' :: cs)) : ∃ body, '"' ∉ body ∧ cs = body ++ ['"'] := by
  generalize htext : '"' :: cs = text at h
  cases h with
  | sign h =>
    obtain ⟨d, ds, rfl, hd⟩ := head_mem_of_sign h
    cases htext
    exact absurd rfl (exclusive_of_sign hd).1
  | string h =>
    cases htext
    exact ⟨_, h, rfl⟩
  | number h =>
    obtain ⟨d, ds, rfl, hd⟩ := h.exists_cons
    cases htext
    exact absurd hd (by decide)
  | word h _ =>
    cases htext
    exact absurd h (by decide)

/-- A token that starts with a digit is a number. -/
theorem of_digit (hc : isAsciiDigit c = true) (h : TokenForm (c :: cs)) :
    ∃ whole fraction, Numeral.IsPlain (c :: cs) whole fraction := by
  generalize htext : c :: cs = text at h
  cases h with
  | sign h =>
    obtain ⟨d, ds, rfl, hd⟩ := head_mem_of_sign h
    cases htext
    exact absurd hc (by simp [(exclusive_of_sign hd).2.1])
  | string _ =>
    cases htext
    exact absurd hc (by decide)
  | number h => exact ⟨_, _, h⟩
  | word h _ =>
    cases htext
    exact absurd h (by simp [startsWord_of_isAsciiDigit hc])

/-- A token that starts with a letter is a word. -/
theorem of_letter (hc : startsWord c = true) (h : TokenForm (c :: cs)) :
    ∀ d ∈ cs, continuesWord d = true := by
  generalize htext : c :: cs = text at h
  cases h with
  | sign h =>
    obtain ⟨d, ds, rfl, hd⟩ := head_mem_of_sign h
    cases htext
    exact absurd hc (by simp [(exclusive_of_sign hd).2.2])
  | string _ =>
    cases htext
    exact absurd hc (by decide)
  | number h =>
    obtain ⟨d, ds, rfl, hd⟩ := h.exists_cons
    cases htext
    exact absurd hc (by simp [startsWord_of_isAsciiDigit hd])
  | word _ hcs =>
    cases htext
    exact hcs

/-- A character that starts no form is none of these. -/
theorem head_cases {text : List Char} (h : TokenForm text) : ∃ c cs, text = c :: cs ∧
    (c ∈ signChars ∨ c = '"' ∨ isAsciiDigit c = true ∨ startsWord c = true) := by
  cases h with
  | sign h =>
    obtain ⟨c, cs, rfl, hc⟩ := head_mem_of_sign h
    exact ⟨c, cs, rfl, .inl hc⟩
  | string _ => exact ⟨_, _, rfl, .inr (.inl rfl)⟩
  | number h =>
    obtain ⟨c, cs, rfl, hc⟩ := h.exists_cons
    exact ⟨c, cs, rfl, .inr (.inr (.inl hc))⟩
  | word hc _ => exact ⟨_, _, rfl, .inr (.inr (.inr hc))⟩

end TokenForm

/-! ### Reading one lexeme -/

/-- Whether a scan of a text reads the longest token at its front, or shows that there is none. -/
inductive LongestScan (cs : List Char) : Scan → Prop
  | taken {outcome : Except (Position → LexError) Token} {text rest : List Char}
    (hlongest : IsLongest text cs) (hread : ReadAs text outcome) (hsplit : cs = text ++ rest) :
    LongestScan cs (.taken outcome text rest)
  | unterminated (hquote : cs.head? = some '"') (hform : ∀ text, text <+: cs → ¬TokenForm text) :
    LongestScan cs (.taken (.error .unterminatedString) cs [])
  | stuck (hquote : cs.head? ≠ some '"') (hform : ∀ text, text <+: cs → ¬TokenForm text) :
    LongestScan cs .stuck

/-- The text of a form at the front of a text starts with its first character. -/
theorem TokenForm.exists_tail {text cs : List Char} {c : Char} (h : TokenForm text)
    (hfront : text <+: c :: cs) : ∃ tail, text = c :: tail ∧ tail <+: cs := by
  obtain ⟨d, tail, rfl, -⟩ := h.head_cases
  obtain ⟨rfl, htail⟩ := List.cons_prefix_cons.1 hfront
  exact ⟨tail, rfl, htail⟩

/-- A sign has two characters at most, of which the second is always the same. -/
theorem length_le_of_mem_signs {c : Char} {cs : List Char} (h : c :: cs ∈ signs) :
    cs = [] ∨ cs = ['='] := by
  have hall : ∀ text ∈ signs, text.tail = [] ∨ text.tail = ['='] := by decide
  exact hall (c :: cs) h

/-- Without an equals sign behind it, a character is read as a sign of its own or refused. -/
theorem scanSign_of_not {cs : List Char} (h : ¬∃ rest, cs = '=' :: rest) (c : Char)
    (alone : Option Relation) (withEqual : Relation) :
    scanSign c alone withEqual cs = match alone with
      | some r => .taken (.ok (.relation r)) [c] cs
      | none => .stuck := by
  unfold scanSign
  split
  · exact absurd ⟨_, rfl⟩ h
  · rfl

/-- A sign is read with the equals sign that follows, if there is one, and no sign is longer.
Whether the character alone is a sign is left to the caller. -/
theorem longest_scanSign {c : Char} (hc : c ∈ signChars) {alone : Option Relation}
    {withEqual : Relation} (hpair : withEqual.symbol.toList = [c, '='])
    (halone : ∀ r, alone = some r → r.symbol.toList = [c])
    (hnone : alone = none → [c] ∉ signs) (cs : List Char) :
    LongestScan (c :: cs) (scanSign c alone withEqual cs) := by
  have hsymbols : ∀ r : Relation, r.symbol.toList ∈ signs := by
    intro r
    cases r <;> decide
  by_cases hnext : ∃ rest, cs = '=' :: rest
  · obtain ⟨rest, rfl⟩ := hnext
    have hmem := hsymbols withEqual
    have hread := ReadAs.relation withEqual
    rw [hpair] at hmem hread
    refine .taken ⟨.sign hmem, by simp, ?_⟩ hread rfl
    intro other hfront hform
    obtain ⟨tail, rfl, -⟩ := hform.exists_tail hfront
    rcases length_le_of_mem_signs (hform.of_sign hc) with rfl | rfl <;> simp
  · -- Without an equals sign behind it only the character itself is left.
    have honly : ∀ other, other <+: c :: cs → TokenForm other → other = [c] := by
      intro other hfront hform
      obtain ⟨tail, rfl, htail⟩ := hform.exists_tail hfront
      rcases length_le_of_mem_signs (hform.of_sign hc) with rfl | rfl
      · rfl
      · obtain ⟨rest, rfl⟩ := htail
        exact absurd ⟨rest, rfl⟩ hnext
    rw [scanSign_of_not hnext]
    cases alone with
    | some r =>
      have hmem := hsymbols r
      have hread := ReadAs.relation r
      rw [halone r rfl] at hmem hread
      refine .taken ⟨.sign hmem, by simp, ?_⟩ hread rfl
      intro other hfront hform
      rw [honly other hfront hform]
    | none =>
      have hquote := (exclusive_of_sign hc).1
      refine .stuck (by simpa using hquote) ?_
      intro text hfront hform
      rw [honly text hfront hform] at hform
      exact hnone rfl (hform.of_sign hc)

/-- A string ends at the first quote behind the opening one. Without such a quote no text in front
has the form of a string. -/
theorem longest_scanString (cs : List Char) : LongestScan ('"' :: cs) (scanString cs) := by
  have hsplit := List.takeWhile_append_dropWhile (p := (· != '"')) (l := cs)
  have hbody : '"' ∉ cs.takeWhile (· != '"') := by
    intro hmem
    have := List.mem_takeWhile_imp hmem
    simp at this
  unfold scanString
  cases hrest : cs.dropWhile (· != '"') with
  | nil =>
    -- Nothing that is left is a quote, so no form can end.
    rw [hrest, List.append_nil] at hsplit
    rw [hsplit] at hbody ⊢
    refine .unterminated rfl ?_
    intro text hfront hform
    obtain ⟨tail, rfl, htail⟩ := hform.exists_tail hfront
    obtain ⟨body, -, rfl⟩ := hform.of_quote
    exact hbody (htail.subset (by simp))
  | cons quote rest =>
    obtain rfl : quote = '"' := by
      have hstop := List.head?_dropWhile_not (· != '"') cs
      rw [hrest] at hstop
      simpa using hstop
    -- A form goes up to the first quote: its body has none.
    have honly : ∀ other, other <+: '"' :: cs → TokenForm other →
        other = '"' :: (cs.takeWhile (· != '"') ++ ['"']) := by
      intro other hfront hform
      obtain ⟨tail, rfl, more, hmore⟩ := hform.exists_tail hfront
      obtain ⟨body, hquote, rfl⟩ := hform.of_quote
      have hpos : ∀ d ∈ body, (d != '"') = true := by
        intro d hd
        rw [bne_iff_ne]
        rintro rfl
        exact hquote hd
      rw [← hmore, List.append_assoc, List.takeWhile_append_of_pos hpos]
      simp
    rw [hrest] at hsplit
    have hcs : '"' :: cs = '"' :: (cs.takeWhile (· != '"') ++ ['"']) ++ rest := by
      simpa using hsplit.symm
    refine .taken ⟨.string hbody, ⟨rest, hcs.symm⟩, ?_⟩ (.string hbody) hcs
    intro other hfront hform
    rw [honly other hfront hform]
    exact le_refl _

/-- Text that satisfies a condition goes no further than the longest such text. -/
theorem length_le_takeWhile {p : Char → Bool} {text cs : List Char} (hfront : text <+: cs)
    (hp : ∀ d ∈ text, p d = true) : text.length ≤ (cs.takeWhile p).length := by
  obtain ⟨rest, rfl⟩ := hfront
  rw [List.takeWhile_append_of_pos hp, List.length_append]
  omega

/-- A word is read as far as its characters go, and any longer text has another one in it. If it is
no keyword it is a fault, and then no keyword has its text. -/
theorem longest_scanWord {c : Char} (hc : startsWord c = true) (cs : List Char) :
    LongestScan (c :: cs) (scanWord (c :: cs)) := by
  have htake : (c :: cs).takeWhile continuesWord = c :: cs.takeWhile continuesWord :=
    List.takeWhile_cons_of_pos (continuesWord_of_startsWord hc)
  have hword : ∀ d ∈ cs.takeWhile continuesWord, continuesWord d = true :=
    fun d => List.mem_takeWhile_imp
  have hlongest : IsLongest ((c :: cs).takeWhile continuesWord) (c :: cs) := by
    refine ⟨?_, List.takeWhile_prefix _, ?_⟩
    · rw [htake]
      exact .word hc hword
    · -- Any token here starts with the same letter, so it is a word as well.
      intro other hfront hform
      obtain ⟨tail, rfl, htail⟩ := hform.exists_tail hfront
      have hle := length_le_takeWhile htail (hform.of_letter hc)
      rw [htake]
      exact Nat.succ_le_succ hle
  refine .taken hlongest ?_ List.takeWhile_append_dropWhile.symm
  cases hfind : Keyword.ofText? (String.ofList ((c :: cs).takeWhile continuesWord)) with
  | some w =>
    have htext : w.text = String.ofList ((c :: cs).takeWhile continuesWord) := by
      simpa using List.find?_some hfind
    have hread := ReadAs.keyword w
    rwa [htext, String.toList_ofList] at hread
  | none =>
    dsimp only
    rw [htake] at hfind ⊢
    refine .unknownWord hc hword ?_
    intro w hw
    -- The search goes through all keywords, so it would have found this one.
    have hall : w ∈ Keyword.all := by cases w <;> decide
    have hno := List.find?_eq_none.1 hfind w hall
    rw [← hw, String.ofList_toList] at hno
    simp at hno

/-- No digit of a fraction stands behind a whole part, unless the point and its digits are read. -/
theorem length_le_fractionDigits {rest fraction : List Char}
    (hfront : '.' :: fraction <+: rest) (hdigits : ∀ d ∈ fraction, isAsciiDigit d = true) :
    fraction.length ≤ (fractionDigits rest).length := by
  obtain ⟨more, rfl⟩ := hfront
  exact length_le_takeWhile (List.prefix_append fraction more) hdigits

/-- The parts of a number at the front of a text go no further than the digits in their places. -/
theorem number_le {text cs whole fraction : List Char} (hfront : text <+: cs)
    (h : Numeral.IsPlain text whole fraction) :
    whole.length ≤ (cs.takeWhile isAsciiDigit).length ∧
      (fraction ≠ [] → whole = cs.takeWhile isAsciiDigit ∧
        fraction.length ≤ (fractionDigits (cs.dropWhile isAsciiDigit)).length) := by
  have hwhole : whole <+: text := ⟨_, h.text_eq.symm⟩
  refine ⟨length_le_takeWhile (hwhole.trans hfront) h.whole_digits, ?_⟩
  intro hfraction
  have htext := h.text_eq
  rw [if_neg hfraction] at htext
  obtain ⟨more, rfl⟩ := hfront
  -- The point ends the digits of the whole part.
  have hpoint : ¬isAsciiDigit '.' = true := by decide
  rw [htext, List.append_assoc, List.takeWhile_append_of_pos h.whole_digits,
    List.dropWhile_append_of_pos h.whole_digits, List.cons_append,
    List.takeWhile_cons_of_neg hpoint, List.dropWhile_cons_of_neg hpoint]
  exact ⟨(List.append_nil whole).symm, length_le_fractionDigits ⟨more, rfl⟩ h.fraction_digits⟩

/-- A number is read as far as its digits go, and past a point only if a digit stands behind it. A
point with no digit behind it is not taken, and no number has one. -/
theorem longest_scanNumber {c : Char} (hc : isAsciiDigit c = true) (cs : List Char) :
    LongestScan (c :: cs) (scanNumber (c :: cs)) := by
  have hsplit := List.takeWhile_append_dropWhile (p := isAsciiDigit) (l := c :: cs)
  have hne : (c :: cs).takeWhile isAsciiDigit ≠ [] := by simp [hc]
  -- Any token here is a number. It has no more digits before its point than are taken, and digits
  -- behind a point only if it has all of these.
  have hbound : ∀ other, other <+: c :: cs → TokenForm other → ∃ whole fraction,
      Numeral.IsPlain other whole fraction ∧
        whole.length ≤ ((c :: cs).takeWhile isAsciiDigit).length ∧
        (fraction ≠ [] → whole = (c :: cs).takeWhile isAsciiDigit ∧
          fraction.length ≤ (fractionDigits ((c :: cs).dropWhile isAsciiDigit)).length) := by
    intro other hfront hform
    obtain ⟨tail, rfl, -⟩ := hform.exists_tail hfront
    obtain ⟨whole, fraction, hplain⟩ := hform.of_digit hc
    exact ⟨whole, fraction, hplain, number_le hfront hplain⟩
  have hread : ∀ {text fraction : List Char},
      Numeral.IsPlain text ((c :: cs).takeWhile isAsciiDigit) fraction → ReadAs text
        (.ok (.number (Numeral.ofDigits false ((c :: cs).takeWhile isAsciiDigit) fraction 0))) := by
    intro text fraction hplain
    refine .number hplain ?_
    rw [← String.toList_ofList (l := text)] at hplain
    exact hplain.read?_eq
  unfold scanNumber
  dsimp only
  split
  · -- No digit stands behind a point, so no token goes beyond the digits.
    rename_i hempty
    rw [List.isEmpty_iff] at hempty
    have hplain : Numeral.IsPlain ((c :: cs).takeWhile isAsciiDigit)
        ((c :: cs).takeWhile isAsciiDigit) [] :=
      ⟨by simp, hne, fun _ => List.mem_takeWhile_imp, by simp⟩
    refine .taken ⟨.number hplain, List.takeWhile_prefix _, ?_⟩ (hread hplain) hsplit.symm
    intro other hfront hform
    obtain ⟨whole, fraction, hother, hwhole, hfraction⟩ := hbound other hfront hform
    rw [hempty] at hfraction
    have hnone : fraction = [] := by
      by_contra hsome
      have := (hfraction hsome).2
      exact hsome (List.length_eq_zero_iff.1 (by simpa using this))
    rw [hother.text_eq, if_pos hnone, List.append_nil]
    exact hwhole
  · -- The point and the digits behind it belong to the number.
    rename_i hfound
    have happend := append_fractionDigits (Bool.eq_false_iff.2 hfound)
    rw [List.isEmpty_iff] at hfound
    have hplain : Numeral.IsPlain ((c :: cs).takeWhile isAsciiDigit ++
          '.' :: fractionDigits ((c :: cs).dropWhile isAsciiDigit))
        ((c :: cs).takeWhile isAsciiDigit) (fractionDigits ((c :: cs).dropWhile isAsciiDigit)) :=
      ⟨by rw [if_neg hfound], hne, fun _ => List.mem_takeWhile_imp,
        fun _ => isAsciiDigit_of_mem_fractionDigits⟩
    have hcs := hsplit
    rw [← happend, ← List.append_assoc] at hcs
    refine .taken ⟨.number hplain, ⟨_, hcs⟩, ?_⟩ (hread hplain) hcs.symm
    intro other hfront hform
    obtain ⟨whole, fraction, hother, hwhole, hfraction⟩ := hbound other hfront hform
    rw [hother.text_eq]
    split
    · simp only [List.append_nil, List.length_append]
      omega
    · rename_i hsome
      obtain ⟨rfl, hlength⟩ := hfraction hsome
      simp only [List.length_append, List.length_cons]
      omega

/-- What is read where no trivia starts is the longest token there. The cases are those of the first
character. A character that starts no form is stuck, and then no text there is a token. -/
theorem longest_scanAt (c : Char) (cs : List Char) : LongestScan (c :: cs) (scanAt c cs) := by
  unfold scanAt
  split
  · rename_i h
    rw [beq_iff_eq.1 h]
    refine .taken ⟨.sign (by decide), by simp, ?_⟩ .semicolon rfl
    intro other hfront hform
    obtain ⟨tail, rfl, -⟩ := hform.exists_tail hfront
    -- The semicolon is no part of a longer sign.
    have hall : ∀ text ∈ signs, text.head? = some ';' → text.length ≤ 1 := by decide
    exact hall _ (hform.of_sign (by decide)) rfl
  split
  · rename_i h
    rw [beq_iff_eq.1 h]
    exact longest_scanSign (by decide) (by decide) (by decide) (by decide) cs
  split
  · rename_i h
    rw [beq_iff_eq.1 h]
    exact longest_scanSign (by decide) (by decide) (by decide) (by decide) cs
  split
  · rename_i h
    rw [beq_iff_eq.1 h]
    exact longest_scanSign (by decide) (by decide) (by decide) (by decide) cs
  split
  · rename_i h
    rw [beq_iff_eq.1 h]
    exact longest_scanSign (by decide) (by decide) (by decide) (by decide) cs
  split
  · rename_i h
    rw [beq_iff_eq.1 h]
    exact longest_scanString cs
  split
  · rename_i h
    exact longest_scanNumber h cs
  split
  · rename_i h
    exact longest_scanWord h cs
  · -- No token starts with any other character.
    rename_i hsemicolon hgreater hless hequal hnot hquote hdigit hletter
    refine .stuck (by simpa using hquote) ?_
    intro text hfront hform
    obtain ⟨tail, rfl, -⟩ := hform.exists_tail hfront
    obtain ⟨d, ds, heq, hd⟩ := hform.head_cases
    cases heq
    rcases hd with hsign | hd | hd | hd
    · simp_all [signChars]
    · simp [hd] at hquote
    · exact hdigit hd
    · exact hletter hd

/-! ### Behind blanks and comments -/

/-- Whether a text starts with a blank or with a comment. -/
def StartsTrivia (cs : List Char) : Prop :=
  (∃ c ∈ cs.head?, isBlank c = true) ∨ ['/', '/'] <+: cs

/-- Where no trivia starts nothing is skipped. -/
theorem skipTrivia_of_not {cs : List Char} (h : ¬StartsTrivia cs) (p : Position) :
    skipTrivia false cs p = (cs, p) := by
  cases cs with
  | nil => rfl
  | cons c cs =>
    have hblank : ¬isBlank c = true := fun hc => h (.inl ⟨c, rfl, hc⟩)
    have hcomment : ¬(c == '/' && cs.head? == some '/') = true := by
      intro hslashes
      obtain ⟨rfl, more, rfl⟩ : c = '/' ∧ ∃ more, cs = '/' :: more := by
        simpa [List.head?_eq_some_iff] using hslashes
      exact h (.inr ⟨more, rfl⟩)
    unfold skipTrivia
    rw [if_neg Bool.false_ne_true, if_neg hblank, if_neg hcomment]

/-- Nothing that could be skipped is left. -/
theorem not_startsTrivia_skipTrivia (inComment : Bool) (cs : List Char) (p : Position) :
    ¬StartsTrivia (skipTrivia inComment cs p).1 := by
  induction cs generalizing inComment p with
  | nil => simp [skipTrivia, StartsTrivia]
  | cons c cs ih =>
    unfold skipTrivia
    split
    · exact ih _ _
    split
    · exact ih _ _
    split
    · exact ih _ _
    · -- What is left starts with no blank, and with no two slashes.
      rename_i hblank hcomment
      rintro (⟨d, hd, hd'⟩ | ⟨more, hmore⟩)
      · cases hd
        exact hblank hd'
      · cases hmore
        exact hcomment rfl

/-- All of a gap is skipped, whatever follows it. The induction is on the parts of the gap. A
comment is skipped up to its line feed, where the rest of the gap begins. -/
theorem skipTrivia_append {rest gap : List Char} (h : Trivia rest gap) (p : Position) :
    skipTrivia false (gap ++ rest) p = skipTrivia false rest (p.afterAll gap) := by
  induction h generalizing p with
  | nil => rfl
  | @blank c gap hc hgap ih =>
    rw [List.cons_append]
    conv_lhs => unfold skipTrivia
    rw [if_neg Bool.false_ne_true, if_pos hc]
    exact ih (p.after c)
  | @comment body gap hbody hend hgap ih =>
    have hpos : ∀ d ∈ body, (d != '\n') = true := by
      intro d hd
      rw [bne_iff_ne]
      rintro rfl
      exact hbody hd
    -- The comment stops where the line feed stands, or with the script.
    have hstop : (gap ++ rest).takeWhile (· != '\n') = [] ∧
        (gap ++ rest).dropWhile (· != '\n') = gap ++ rest := by
      rcases hend with hnil | hhead
      · simp [hnil]
      · obtain ⟨more, hmore⟩ := List.head?_eq_some_iff.1 hhead
        simp [hmore]
    have hcomment : skipTrivia false ('/' :: '/' :: (body ++ gap) ++ rest) p
        = skipTrivia true (body ++ (gap ++ rest)) ((p.after '/').after '/') := by
      have hslash : isBlank '/' = false := by decide
      simp [skipTrivia, hslash]
    rw [hcomment, skipTrivia_comment, List.takeWhile_append_of_pos hpos,
      List.dropWhile_append_of_pos hpos, hstop.1, hstop.2, List.append_nil, ih]
    simp [Position.afterAll]

/-- Whether a reader of lexemes, for which `r` is left at the position `start`, answers with the
longest token there. -/
structure LongestMatch (r : List Char) (start : Position) (f : Feed) : Prop where
  /-- The end of the script is given, and given again whenever it is asked for. -/
  atEnd : r = [] → ∀ n, ((fun g : Feed => g.next.2)^[n] f).next.1 = .ok (.atEnd start)
  /-- The longest form of a token is taken, and what follows it is left. -/
  longest : (∃ text, text <+: r ∧ TokenForm text) → ∃ text rest outcome,
    r = text ++ rest ∧ IsLongest text r ∧ ReadAs text outcome ∧
      f.next = (match outcome with
        | .ok token => .ok ⟨token, String.ofList text, start⟩
        | .error fault => .error (fault start), Feed.ofChars rest (start.afterAll text))
  /-- A string that no quote ends is taken up to the end of the script. -/
  unterminated : (∀ text, text <+: r → ¬TokenForm text) → r.head? = some '"' →
    f.next = (.error (.unterminatedString start), Feed.ofChars [] (start.afterAll r))
  /-- Any other character that starts no form stays where it is. -/
  unexpected : (∀ text, text <+: r → ¬TokenForm text) → ∀ c, r.head? = some c → c ≠ '"' →
    f.next = (.error (.unexpectedChar c start), Feed.ofChars r start)

/-- The reader gives the same answer again where it takes nothing. -/
theorem next_iterate_of_nil (ending : Ending) (n : Nat) :
    (fun g : Feed => g.next.2)^[n] ⟨[], ending⟩ = ⟨[], ending⟩ :=
  Function.iterate_fixed rfl n

/-- What a text gives first is read where its blanks and comments end. So the blanks and comments
are skipped, and `longest_scanAt` is about what is left. -/
theorem longestMatch_ofChars {cs r : List Char} {p start : Position}
    (hskip : skipTrivia false cs p = (r, start)) : LongestMatch r start (Feed.ofChars cs p) := by
  have hfeed := Feed.ofChars_eq cs p
  rw [hskip] at hfeed
  cases r with
  | nil =>
    refine ⟨fun _ n => ?_, ?_, fun _ h => (nomatch h), fun _ c h => (nomatch h)⟩
    · rw [hfeed, next_iterate_of_nil]
      rfl
    · rintro ⟨text, hfront, hform⟩
      obtain ⟨c, tail, rfl, -⟩ := hform.head_cases
      exact absurd hfront.length_le (by simp)
  | cons c more =>
    have hscan := longest_scanAt c more
    have hleft : ¬StartsTrivia (c :: more) := by
      have hleft := not_startsTrivia_skipTrivia false cs p
      rwa [hskip] at hleft
    -- Reading again from here skips nothing, which is what the last part is about.
    have hagain := Feed.ofChars_eq (c :: more) start
    rw [skipTrivia_of_not hleft] at hagain
    dsimp only at hfeed hagain
    generalize scanAt c more = scan at hfeed hagain hscan
    refine ⟨fun h => (nomatch h), ?_, ?_, ?_⟩
    · rintro ⟨text, hfront, hform⟩
      cases hscan with
      | taken hlongest hread hrest =>
        refine ⟨_, _, _, hrest, hlongest, hread, ?_⟩
        rw [hfeed]
        rfl
      | unterminated _ hnone => exact absurd hform (hnone text hfront)
      | stuck _ hnone => exact absurd hform (hnone text hfront)
    · intro hnone hquote
      cases hscan with
      | taken hlongest _ _ => exact absurd hlongest.form (hnone _ hlongest.isPrefix)
      | unterminated _ _ =>
        rw [hfeed]
        rfl
      | stuck hother _ => exact absurd hquote hother
    · intro hnone d hd hquote
      cases hd
      cases hscan with
      | taken hlongest _ _ => exact absurd hlongest.form (hnone _ hlongest.isPrefix)
      | unterminated hother _ => exact absurd (Option.some.inj hother) hquote
      | stuck _ _ =>
        rw [hagain, hfeed]
        rfl

/-- Lexing is longest match. Blanks and comments are skipped up to a place where none starts, and
there is one such place only. If nothing is left there, that is the end of the script, now and
for ever. If the text there starts with the form of a token, the longest such text is taken and
read; if not, a quote is an unterminated string, and any other character is unexpected and stays. -/
theorem next_longest_match (cs : List Char) (p : Position) :
    ∃ gap r, cs = gap ++ r ∧ Trivia r gap ∧ ¬StartsTrivia r ∧
      (∀ gap' r', cs = gap' ++ r' → Trivia r' gap' → ¬StartsTrivia r' → gap' = gap ∧ r' = r) ∧
      LongestMatch r (p.afterAll gap) (Feed.ofChars cs p) := by
  obtain ⟨gap, hsplit, hstart, hgap⟩ := exists_skipped cs p
  refine ⟨gap, _, hsplit, hgap, not_startsTrivia_skipTrivia false cs p, ?_, ?_⟩
  · intro gap' r' hsplit' hgap' hleft'
    have hr : r' = (skipTrivia false cs p).1 := by
      rw [hsplit', skipTrivia_append hgap', skipTrivia_of_not hleft']
    rw [hr] at hsplit'
    exact ⟨List.append_cancel_right (hsplit'.symm.trans hsplit), hr⟩
  · rw [← hstart]
    exact longestMatch_ofChars rfl

end Roster
