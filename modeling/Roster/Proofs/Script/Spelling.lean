import Roster.Proofs.Number.Numeral
import Roster.Script.Lexer

/-!
# `Roster.Proofs.Script.Spelling`: which tokens can be written

Not every token stands in some script. There is no way to write a quote inside a string, a number
has no sign, and the end of the script is not written at all. `Token.Spelled` says which tokens
are left. What is read is one of them (`spelled_of_scanAt`), and each of them is read:
`Token.WrittenAs` gives a text for it (`Spelled.exists_writtenAs`). What is read and is no token
is a fault, and `scanAt_error_cases` says which faults there are.

What follows a token matters little. `Delimits` names the characters that end every token, blanks
and the semicolon among them, and `scanAt_append` shows that in front of one of them a text is
read as if nothing stood behind it. Only a string that is not closed reads on.
-/

set_option autoImplicit false

namespace Roster

open Lexer Text

/-- Whether a token can be written in a script. -/
inductive Token.Spelled : Token → Prop
  | keyword (word : Keyword) : Spelled (.keyword word)
  | relation (sign : Relation) : Spelled (.relation sign)
  | semicolon : Spelled .semicolon
  /-- A string ends at the next quote. -/
  | string {body : List Char} (h : ∀ c ∈ body, c ≠ '"') : Spelled (.string (String.ofList body))
  /-- A number is digits, and perhaps a point and more digits. -/
  | number {whole fraction : List Char} (hne : whole ≠ [])
    (hwhole : ∀ c ∈ whole, isAsciiDigit c = true)
    (hfraction : ∀ c ∈ fraction, isAsciiDigit c = true) :
    Spelled (.number (Numeral.ofDigits false whole fraction 0))

namespace Lexer

/-! ### What is read can be written -/

variable {c : Char} {cs text rest : List Char} {token : Token}

/-- Every sign that is read can be written. -/
theorem spelled_of_scanSign {alone : Option Relation} {withEqual : Relation}
    (h : scanSign c alone withEqual cs = .taken (.ok token) text rest) : token.Spelled := by
  unfold scanSign at h
  split at h
  · cases h
    exact .relation _
  · split at h <;> cases h
    exact .relation _

/-- A string that is read has no quote in it, so it can be written. -/
theorem spelled_of_scanString (h : scanString cs = .taken (.ok token) text rest) :
    token.Spelled := by
  unfold scanString at h
  dsimp only at h
  split at h <;> cases h
  refine .string fun c hc => ?_
  simpa using List.mem_takeWhile_imp hc

/-- The digits behind a point are digits. -/
theorem isAsciiDigit_of_mem_fractionDigits (h : c ∈ fractionDigits cs) :
    isAsciiDigit c = true := by
  unfold fractionDigits at h
  split at h
  · exact List.mem_takeWhile_imp h
  · cases h

/-- A number that is read can be written, with the digits that it was read from. -/
theorem spelled_of_scanNumber (hc : isAsciiDigit c = true)
    (h : scanNumber (c :: cs) = .taken (.ok token) text rest) : token.Spelled := by
  have hne : (c :: cs).takeWhile isAsciiDigit ≠ [] := by simp [hc]
  unfold scanNumber at h
  dsimp only at h
  split at h <;> cases h
  · exact .number hne (fun _ => List.mem_takeWhile_imp) (by simp)
  · exact .number hne (fun _ => List.mem_takeWhile_imp)
      (fun _ => isAsciiDigit_of_mem_fractionDigits)

/-- A word that is read is a keyword, and keywords can be written. -/
theorem spelled_of_scanWord (h : scanWord cs = .taken (.ok token) text rest) :
    token.Spelled := by
  simp only [scanWord, Scan.taken.injEq] at h
  obtain ⟨h, -, -⟩ := h
  split at h <;> cases h
  exact .keyword _

/-- Every token that is read can be written. -/
theorem spelled_of_scanAt (h : scanAt c cs = .taken (.ok token) text rest) : token.Spelled := by
  unfold scanAt at h
  split at h
  · cases h
    exact .semicolon
  -- The signs of relations are read alike, whichever character they start with.
  iterate 4
    split at h
    · exact spelled_of_scanSign h
  split at h
  · exact spelled_of_scanString h
  split at h
  · rename_i hc
    exact spelled_of_scanNumber hc h
  split at h
  · exact spelled_of_scanWord h
  · cases h

/-! ### What is a fault -/

/-- A word is a fault if it is not reserved. All of it has been read. -/
theorem scanWord_error {fault : Position → LexError}
    (h : scanWord cs = .taken (.error fault) text rest) :
    fault = .unknownWord (String.ofList text) ∧ text = cs.takeWhile continuesWord ∧
      rest = cs.dropWhile continuesWord := by
  simp only [scanWord, Scan.taken.injEq] at h
  obtain ⟨houtcome, rfl, rfl⟩ := h
  split at houtcome <;> cases houtcome
  exact ⟨rfl, rfl, rfl⟩

/-- A string is a fault if no quote ends it. All that is left of the script has been read. -/
theorem scanString_error {fault : Position → LexError}
    (h : scanString cs = .taken (.error fault) text rest) :
    fault = .unterminatedString ∧ '"' ∉ cs ∧ text = '"' :: cs ∧ rest = [] := by
  have hsplit := List.takeWhile_append_dropWhile (p := (· != '"')) (l := cs)
  unfold scanString at h
  dsimp only at h
  split at h
  · rename_i hnone
    rw [hnone, List.append_nil] at hsplit
    have hquote : '"' ∉ cs.takeWhile (· != '"') := by
      intro hmem
      have := List.mem_takeWhile_imp hmem
      simp at this
    rw [hsplit] at h hquote
    cases h
    exact ⟨rfl, hquote, rfl, rfl⟩
  · cases h

/-- Two things are faults once something has been read: words and strings. Every other form is
either taken whole or not begun. -/
theorem scanAt_error_cases {fault : Position → LexError}
    (h : scanAt c cs = .taken (.error fault) text rest) :
    (scanWord (c :: cs) = .taken (.error fault) text rest ∧ startsWord c = true) ∨
      (scanString cs = .taken (.error fault) text rest ∧ c = '"') := by
  -- The sign of a relation is no fault, and neither is a number.
  have hsign : ∀ (alone : Option Relation) (withEqual : Relation),
      scanSign c alone withEqual cs ≠ .taken (.error fault) text rest := by
    intro alone withEqual hsign
    unfold scanSign at hsign
    split at hsign
    · cases hsign
    · split at hsign <;> cases hsign
  have hnumber : scanNumber (c :: cs) ≠ .taken (.error fault) text rest := by
    intro hnumber
    unfold scanNumber at hnumber
    dsimp only at hnumber
    split at hnumber <;> cases hnumber
  unfold scanAt at h
  split at h
  · cases h
  iterate 4
    split at h
    · exact absurd h (hsign _ _)
  split at h
  · rename_i hquote
    exact .inr ⟨h, beq_iff_eq.1 hquote⟩
  split at h
  · exact absurd h hnumber
  split at h
  · rename_i hword
    exact .inl ⟨h, hword⟩
  · cases h

/-! ### What can be written is read -/

/-- A digit is no blank, and starts no comment. -/
theorem not_trivia_of_isAsciiDigit (h : isAsciiDigit c = true) : isBlank c = false ∧ c ≠ '/' := by
  have hcode : 48 ≤ c.toNat ∧ c.toNat ≤ 57 := by
    simpa [isAsciiDigit, Char.le_def, UInt32.le_iff_toNat_le] using h
  constructor
  · simp [isBlank, blankRanges, CharRange.contains]
    omega
  · rintro rfl
    cases h

/-- What starts with a digit is read as a number. -/
theorem scanAt_of_isAsciiDigit (h : isAsciiDigit c = true) (cs : List Char) :
    scanAt c cs = scanNumber (c :: cs) := by
  -- The characters that are looked at before the digits.
  have hne : ∀ d ∈ [';', '>', '<', '=', '!', '"'], (c == d) = false := by
    have hsigns : ∀ d ∈ [';', '>', '<', '=', '!', '"'], isAsciiDigit d = false := by
      simp [isAsciiDigit]
    intro d hd
    rw [beq_eq_false_iff_ne]
    rintro rfl
    rw [hsigns c hd] at h
    cases h
  simp only [List.forall_mem_cons] at hne
  simp [scanAt, hne, h, -beq_iff_eq]

/-- Digits, and a point and more digits if there are any, are read as one number. -/
theorem scanNumber_of_isPlain {whole fraction : List Char}
    (h : Numeral.IsPlain text whole fraction) :
    scanNumber text
      = .taken (.ok (.number (Numeral.ofDigits false whole fraction 0))) text [] := by
  unfold scanNumber
  rw [h.takeWhile_eq, h.dropWhile_eq]
  split_ifs with hnone
  · simp [h.text_eq, hnone, fractionDigits]
  · have hdigits : fractionDigits ('.' :: fraction) = fraction :=
      List.takeWhile_eq_self_iff.2 h.fraction_digits
    simp [h.text_eq, hnone, hdigits]

/-! ### What ends a token -/

/-- Whether a character ends what stands before it: it continues no word and no number, and no
sign is made longer by it. -/
def Delimits (d : Char) : Prop :=
  continuesWord d = false ∧ isAsciiDigit d = false ∧ d ≠ '.' ∧ d ≠ '='

/-- A blank ends what stands before it. -/
theorem delimits_blank : Delimits ' ' := ⟨rfl, rfl, by decide, by decide⟩

/-- So does the end of a line. -/
theorem delimits_lineFeed : Delimits '\n' := ⟨rfl, rfl, by decide, by decide⟩

/-- So does a semicolon. -/
theorem delimits_semicolon : Delimits ';' := ⟨rfl, rfl, by decide, by decide⟩

/-- The result of reading a text, if more text stands behind it that was not looked at. -/
def Scan.extend (more : List Char) : Scan → Scan
  | .stuck => .stuck
  | .taken outcome text rest => .taken outcome text (rest ++ more)

variable {d : Char}

/-- What is taken ends at a delimiter, so nothing behind it counts. -/
theorem takeWhile_append_delimiter {p : Char → Bool} (hd : p d = false) (cs more : List Char) :
    (cs ++ d :: more).takeWhile p = cs.takeWhile p := by
  induction cs with
  | nil => simp [hd]
  | cons c cs ih =>
    cases hc : p c with
    | true => simp [hc, ih]
    | false => simp [hc]

/-- What is left when characters are dropped is left with the delimiter and all behind it. -/
theorem dropWhile_append_delimiter {p : Char → Bool} (hd : p d = false) (cs more : List Char) :
    (cs ++ d :: more).dropWhile p = cs.dropWhile p ++ d :: more := by
  induction cs with
  | nil => simp [hd]
  | cons c cs ih =>
    cases hc : p c with
    | true => simp [hc, ih]
    | false => simp [hc]

/-- A sign is read alike with a delimiter and more behind it. -/
theorem scanSign_append (hd : Delimits d) (alone : Option Relation) (withEqual : Relation)
    (cs more : List Char) :
    scanSign c alone withEqual (cs ++ d :: more)
      = (scanSign c alone withEqual cs).extend (d :: more) := by
  obtain ⟨-, -, -, hequal⟩ := hd
  cases cs with
  | nil => cases alone <;> simp [scanSign, Scan.extend, hequal]
  | cons e cs =>
    by_cases he : e = '='
    · subst he
      rfl
    · cases alone <;> simp [scanSign, Scan.extend, he]

/-- So is a word. -/
theorem scanWord_append (hd : Delimits d) (cs more : List Char) :
    scanWord (cs ++ d :: more) = (scanWord cs).extend (d :: more) := by
  rw [scanWord, takeWhile_append_delimiter hd.1, dropWhile_append_delimiter hd.1]
  rfl

/-- So are the digits behind a point, since the delimiter is neither a point nor a digit. -/
theorem fractionDigits_append (hd : Delimits d) (cs more : List Char) :
    fractionDigits (cs ++ d :: more) = fractionDigits cs := by
  obtain ⟨-, hdigit, hpoint, -⟩ := hd
  cases cs with
  | nil => simp [fractionDigits, hpoint]
  | cons e cs =>
    by_cases he : e = '.'
    · subst he
      exact takeWhile_append_delimiter hdigit cs more
    · simp [fractionDigits, he]

/-- So is a number. -/
theorem scanNumber_append (hd : Delimits d) (cs more : List Char) :
    scanNumber (cs ++ d :: more) = (scanNumber cs).extend (d :: more) := by
  have htake := takeWhile_append_delimiter hd.2.1 cs more
  have hdrop := dropWhile_append_delimiter hd.2.1 cs more
  have hfraction := fractionDigits_append hd (cs.dropWhile isAsciiDigit) more
  simp only [scanNumber, htake, hdrop, hfraction]
  split
  · rfl
  · -- The point and the digits behind it are dropped, and all of them stand before the delimiter.
    rename_i hsome
    have hlength := congrArg List.length (append_fractionDigits (Bool.eq_false_iff.2 hsome))
    simp only [List.length_append, List.length_cons] at hlength
    rw [List.drop_append_of_le_length (by omega)]
    rfl

/-- A string that is closed is read up to its quote, whatever stands behind it. -/
theorem scanString_append {cs : List Char} (h : '"' ∈ cs) (more : List Char) :
    scanString (cs ++ more) = (scanString cs).extend more := by
  obtain ⟨body, rest, rfl, hbody⟩ := List.eq_append_cons_of_mem h
  have hquote : ('"' != '"') = false := rfl
  have hplain : ∀ c ∈ body, (c != '"') = true := by
    intro c hc
    rw [bne_iff_ne]
    rintro rfl
    exact hbody hc
  have hread : ∀ rest : List Char, scanString (body ++ '"' :: rest)
      = .taken (.ok (.string (String.ofList body))) ('"' :: body ++ ['"']) rest := by
    intro rest
    rw [scanString, List.takeWhile_append_of_pos hplain, List.dropWhile_append_of_pos hplain]
    simp
  rw [List.append_assoc, List.cons_append, hread, hread]
  rfl

/-- What is read in front of a delimiter is what is read with nothing behind it, but for a string
that is not closed before the delimiter. -/
theorem scanAt_append (hd : Delimits d) {cs : List Char} (hclosed : c = '"' → '"' ∈ cs)
    (more : List Char) :
    scanAt c (cs ++ d :: more) = (scanAt c cs).extend (d :: more) := by
  simp only [scanAt, scanSign_append hd, ← List.cons_append, scanNumber_append hd,
    scanWord_append hd]
  -- All but strings end before the delimiter.
  by_cases hquote : c = '"'
  · subst hquote
    exact scanString_append (hclosed rfl) (d :: more)
  · have hne : (c == '"') = false := by simpa using hquote
    simp only [hne, Bool.false_eq_true, if_false]
    split_ifs <;> rfl

/-- A string that has been read is closed. -/
theorem quote_mem_of_scanAt {cs : List Char}
    (h : scanAt c cs = .taken (.ok token) text rest) (hc : c = '"') : '"' ∈ cs := by
  subst hc
  change scanString cs = _ at h
  by_contra hquote
  have hplain : ∀ c ∈ cs, (c != '"') = true := by
    intro c hc
    rw [bne_iff_ne]
    rintro rfl
    exact hquote hc
  rw [scanString, List.dropWhile_eq_nil_iff.2 hplain] at h
  cases h

/-- A token that has been read is read the same if a delimiter stands behind the text. -/
theorem scanAt_append_of_token (hd : Delimits d)
    (h : scanAt c cs = .taken (.ok token) text rest) (more : List Char) :
    scanAt c (cs ++ d :: more) = .taken (.ok token) text (rest ++ d :: more) := by
  rw [scanAt_append hd (quote_mem_of_scanAt h), h]
  rfl

end Lexer

/-- Whether a text is read as a token, and no trivia starts with it. -/
def Token.WrittenAs (t : Token) (text : List Char) : Prop :=
  ∃ c cs, text = c :: cs ∧ isBlank c = false ∧ c ≠ '/' ∧ scanAt c cs = .taken (.ok t) text []

namespace Token

/-- The word of a keyword is read as it. -/
theorem writtenAs_keyword (w : Keyword) : (keyword w).WrittenAs w.text.toList := by
  cases w <;> exact ⟨_, _, rfl, by decide, by decide, rfl⟩

/-- The sign of a relation is read as it. -/
theorem writtenAs_relation (r : Relation) : (relation r).WrittenAs r.symbol.toList := by
  cases r <;> exact ⟨_, _, rfl, by decide, by decide, rfl⟩

/-- A semicolon is read as itself. -/
theorem writtenAs_semicolon : semicolon.WrittenAs [';'] :=
  ⟨_, _, rfl, by decide, by decide, rfl⟩

/-- Characters without a quote, put in quotes, are read as the string of them. -/
theorem writtenAs_string {body : List Char} (h : ∀ c ∈ body, c ≠ '"') :
    (string (String.ofList body)).WrittenAs ('"' :: (body ++ ['"'])) := by
  have hbody : ∀ c ∈ body, (c != '"') = true := by simpa using h
  refine ⟨_, _, rfl, by decide, by decide, ?_⟩
  show scanString _ = _
  rw [scanString, List.takeWhile_append_of_pos hbody, List.dropWhile_append_of_pos hbody]
  simp

/-- A number is written as its digits. A point with no digit behind it is not read as part of a
number, so there is none if there is no fraction. -/
theorem writtenAs_number {text whole fraction : List Char}
    (h : Numeral.IsPlain text whole fraction) :
    (number (Numeral.ofDigits false whole fraction 0)).WrittenAs text := by
  obtain ⟨c, cs, rfl, hc⟩ := h.exists_cons
  obtain ⟨hblank, hslash⟩ := not_trivia_of_isAsciiDigit hc
  refine ⟨c, cs, rfl, hblank, hslash, ?_⟩
  rw [scanAt_of_isAsciiDigit hc]
  exact scanNumber_of_isPlain h

/-- Every token that can be written has a text. -/
theorem Spelled.exists_writtenAs {t : Token} (h : t.Spelled) : ∃ text, t.WrittenAs text := by
  cases h with
  | keyword w => exact ⟨_, writtenAs_keyword w⟩
  | relation r => exact ⟨_, writtenAs_relation r⟩
  | semicolon => exact ⟨_, writtenAs_semicolon⟩
  | string h => exact ⟨_, writtenAs_string h⟩
  | number hne hwhole hfraction =>
    exact ⟨_, writtenAs_number ⟨rfl, hne, hwhole, hfraction⟩⟩

/-- The end of a script is not written. -/
theorem Spelled.ne_eof {t : Token} (h : t.Spelled) : t ≠ .eof := by
  cases h <;> exact nofun

/-- There is a token of each kind that can be written, but for the end of a script. -/
theorem exists_spelled_of_kind {k : TokenKind} (h : k ≠ .eof) :
    ∃ t : Token, t.Spelled ∧ t.kind = k := by
  cases k with
  | keyword w => exact ⟨_, .keyword w, rfl⟩
  | relation r => exact ⟨_, .relation r, rfl⟩
  | number =>
    have hdigit : ∀ c ∈ ['0'], isAsciiDigit c = true := List.forall_mem_singleton.2 rfl
    exact ⟨_, .number (List.cons_ne_nil _ _) hdigit (List.forall_mem_nil _), rfl⟩
  | string => exact ⟨_, .string (List.forall_mem_nil _), rfl⟩
  | semicolon => exact ⟨_, .semicolon, rfl⟩
  | eof => exact absurd rfl h

end Token

end Roster
