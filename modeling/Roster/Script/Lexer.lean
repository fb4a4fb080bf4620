import Roster.Number.Numeral
import Roster.Text.Blank
import Roster.Text.Alphabetic
import Roster.Script.Position
import Roster.Script.Token

/-!
# From characters to lexemes

A script is cut into lexemes: tokens with their text and position. Blanks and comments (two
slashes up to the end of the line) separate lexemes and are otherwise dropped.

`scanAt` reads the longest lexeme at a place where no trivia starts. `Feed.ofScript` applies it
from the start of a script to its end, and so turns the script into everything a reader of
lexemes will ever be given: a list of lexemes and faults, and then one answer that is repeated
for ever, because nothing is left to read. Going on after a fault is well defined: an unknown
word or an unterminated string has been read and what follows comes next, while a character
that starts no lexeme stays where it is, so that the same fault comes again. A `Walk` does not
go on: it gives the items of a feed up to the first fault or the end of the script.
-/

set_option autoImplicit false

namespace Roster

open Text

/-- Why no lexeme could be read at a place. -/
inductive LexError where
  /-- The character starts no lexeme. -/
  | unexpectedChar (char : Char) (position : Position)
  /-- The word is not a reserved one. -/
  | unknownWord (word : String) (position : Position)
  /-- No quote follows the one that opens the string. -/
  | unterminatedString (position : Position)
deriving DecidableEq

namespace LexError

/-- Where the fault lies: at the first character of what could not be read. -/
def position : LexError → Position
  | unexpectedChar _ p => p
  | unknownWord _ p => p
  | unterminatedString p => p

/-- The text shown for a fault. -/
def message : LexError → String
  | unexpectedChar c p => s!"unexpected character '{c}' at {p.description}"
  | unknownWord w p => s!"unknown word '{w}' at {p.description} (keywords are lowercase)"
  | unterminatedString p => s!"unterminated string starting at {p.description}"

end LexError

/-- A token with its text and the position of its first character. -/
structure Lexeme where
  token : Token
  text : String
  position : Position
deriving DecidableEq

/-- The lexeme at the end of a script. -/
def Lexeme.atEnd (p : Position) : Lexeme := { token := .eof, text := "", position := p }

/-- What a reader of lexemes is given. -/
abbrev LexItem := Except LexError Lexeme

namespace Lexer

/-- Whether a character starts a word. -/
def startsWord (c : Char) : Bool := isAlphabetic c || c == '_'

/-- Whether a character continues a word. -/
def continuesWord (c : Char) : Bool := isAlphabetic c || isNumeric c || c == '_'

/-- The text behind blanks and comments, with its position. A comment ends before its line
feed, which is a blank. -/
def skipTrivia (inComment : Bool) : List Char → Position → List Char × Position
  | [], p => ([], p)
  | c :: cs, p =>
    if inComment then skipTrivia (c != '\n') cs (p.after c)
    else if isBlank c then skipTrivia false cs (p.after c)
    else if c == '/' && cs.head? == some '/' then skipTrivia true cs (p.after c)
    else (c :: cs, p)

/-- What was found at a place where no trivia starts. -/
inductive Scan where
  /-- The first character starts no lexeme. -/
  | stuck
  /-- The text taken is a token or a faulty piece of text; `rest` follows it. -/
  | taken (outcome : Except (Position → LexError) Token) (text rest : List Char)

/-- Reads a string whose opening quote has been read. There are no escapes: the string ends at
the next quote. -/
def scanString (cs : List Char) : Scan :=
  let body := cs.takeWhile (· != '"')
  match cs.dropWhile (· != '"') with
  | [] => .taken (.error .unterminatedString) ('"' :: body) []
  | quote :: rest => .taken (.ok (.string (String.ofList body))) ('"' :: body ++ [quote]) rest

/-- The digits behind a point, if the text starts with one. -/
def fractionDigits : List Char → List Char
  | '.' :: cs => cs.takeWhile isAsciiDigit
  | _ => []

/-- Reads a number: digits, and a point with more digits if a digit follows the point. -/
def scanNumber (cs : List Char) : Scan :=
  let whole := cs.takeWhile isAsciiDigit
  let rest := cs.dropWhile isAsciiDigit
  let fraction := fractionDigits rest
  if fraction.isEmpty then .taken (.ok (.number (Numeral.ofDigits false whole [] 0))) whole rest
  else
    .taken (.ok (.number (Numeral.ofDigits false whole fraction 0)))
      (whole ++ '.' :: fraction) (rest.drop (fraction.length + 1))

/-- Reads a word; only reserved words are lexemes. -/
def scanWord (cs : List Char) : Scan :=
  let word := cs.takeWhile continuesWord
  let outcome :=
    match Keyword.ofText? (String.ofList word) with
    | some k => .ok (.keyword k)
    | none => .error (.unknownWord (String.ofList word))
  .taken outcome word (cs.dropWhile continuesWord)

/-- Reads a relation sign that may be followed by an equals sign. -/
def scanSign (c : Char) (alone : Option Relation) (withEqual : Relation) (cs : List Char) :
    Scan :=
  match cs with
  | '=' :: rest => .taken (.ok (.relation withEqual)) [c, '='] rest
  | _ =>
    match alone with
    | some r => .taken (.ok (.relation r)) [c] cs
    | none => .stuck

/-- Reads the longest lexeme that starts with the character `c`, before which no trivia is
left; `cs` follows it. -/
def scanAt (c : Char) (cs : List Char) : Scan :=
  if c == ';' then .taken (.ok .semicolon) [c] cs
  else if c == '>' then scanSign c (some .greater) .greaterEqual cs
  else if c == '<' then scanSign c (some .less) .lessEqual cs
  else if c == '=' then scanSign c none .equal cs
  else if c == '!' then scanSign c none .notEqual cs
  else if c == '"' then scanString cs
  else if isAsciiDigit c then scanNumber (c :: cs)
  else if startsWord c then scanWord (c :: cs)
  else .stuck

/-- The sign is what was taken. -/
theorem append_of_scanSign {c : Char} {alone : Option Relation} {withEqual : Relation}
    {cs text rest : List Char} {outcome : Except (Position → LexError) Token}
    (h : scanSign c alone withEqual cs = .taken outcome text rest) :
    text ++ rest = c :: cs ∧ text ≠ [] := by
  unfold scanSign at h
  split at h
  · cases h; simp
  · split at h <;> cases h
    simp

/-- The string with its quotes, or everything to the end of the script, is what was taken. -/
theorem append_of_scanString {cs text rest : List Char}
    {outcome : Except (Position → LexError) Token}
    (h : scanString cs = .taken outcome text rest) :
    text ++ rest = '"' :: cs ∧ text ≠ [] := by
  have hsplit := List.takeWhile_append_dropWhile (p := (· != '"')) (l := cs)
  unfold scanString at h
  dsimp only at h
  split at h <;> rename_i heq <;> rw [heq] at hsplit <;> cases h
  · simpa using hsplit
  · simpa using hsplit

/-- A point with digits behind it is the front of the text. -/
theorem append_fractionDigits {cs : List Char} (h : (fractionDigits cs).isEmpty = false) :
    '.' :: fractionDigits cs ++ cs.drop ((fractionDigits cs).length + 1) = cs := by
  unfold fractionDigits at h ⊢
  split at h
  · rename_i more
    have hmore := List.takeWhile_append_dropWhile (p := isAsciiDigit) (l := more)
    have hdrop := congrArg (List.drop (more.takeWhile isAsciiDigit).length) hmore
    rw [List.drop_left] at hdrop
    simp [← hdrop, hmore]
  · simp at h

/-- A number that starts with a digit takes at least that digit. -/
theorem append_of_scanNumber {c : Char} {cs text rest : List Char}
    {outcome : Except (Position → LexError) Token} (hc : isAsciiDigit c = true)
    (h : scanNumber (c :: cs) = .taken outcome text rest) :
    text ++ rest = c :: cs ∧ text ≠ [] := by
  have hsplit := List.takeWhile_append_dropWhile (p := isAsciiDigit) (l := c :: cs)
  have hne : (c :: cs).takeWhile isAsciiDigit ≠ [] := by simp [hc]
  unfold scanNumber at h
  dsimp only at h
  split at h
  · cases h
    exact ⟨hsplit, hne⟩
  · rename_i hfraction
    have happend := append_fractionDigits (Bool.eq_false_iff.2 hfraction)
    cases h
    exact ⟨by rw [List.append_assoc, happend, hsplit], by simp⟩

/-- A word that starts with a character of words takes at least that character. -/
theorem append_of_scanWord {c : Char} {cs text rest : List Char}
    {outcome : Except (Position → LexError) Token} (hc : continuesWord c = true)
    (h : scanWord (c :: cs) = .taken outcome text rest) :
    text ++ rest = c :: cs ∧ text ≠ [] := by
  unfold scanWord at h
  cases h
  exact ⟨List.takeWhile_append_dropWhile, by simp [hc]⟩

/-- What starts a word continues one. -/
theorem continuesWord_of_startsWord {c : Char} (h : startsWord c = true) :
    continuesWord c = true := by
  simp only [startsWord, continuesWord, Bool.or_eq_true] at h ⊢
  exact h.elim (fun h => .inl (.inl h)) .inr

/-- A lexeme takes its text, which is not empty, from the front of the script. -/
theorem append_of_scanAt {c : Char} {cs text rest : List Char}
    {outcome : Except (Position → LexError) Token}
    (h : scanAt c cs = .taken outcome text rest) :
    text ++ rest = c :: cs ∧ text ≠ [] := by
  unfold scanAt at h
  -- The cases are those of the first character, in the order in which they are tried.
  by_cases h1 : c == ';'
  · simp only [h1, if_true] at h
    cases h
    simp
  by_cases h2 : c == '>'
  · simp only [h1, h2, ↓reduceIte, Bool.false_eq_true] at h
    exact append_of_scanSign h
  by_cases h3 : c == '<'
  · simp only [h1, h2, h3, ↓reduceIte, Bool.false_eq_true] at h
    exact append_of_scanSign h
  by_cases h4 : c == '='
  · simp only [h1, h2, h3, h4, ↓reduceIte, Bool.false_eq_true] at h
    exact append_of_scanSign h
  by_cases h5 : c == '!'
  · simp only [h1, h2, h3, h4, h5, ↓reduceIte, Bool.false_eq_true] at h
    exact append_of_scanSign h
  by_cases h6 : c == '"'
  · simp only [h1, h2, h3, h4, h5, h6, ↓reduceIte, Bool.false_eq_true] at h
    rw [beq_iff_eq.1 h6]
    exact append_of_scanString h
  by_cases h7 : isAsciiDigit c
  · simp only [h1, h2, h3, h4, h5, h6, h7, ↓reduceIte, Bool.false_eq_true] at h
    exact append_of_scanNumber h7 h
  by_cases h8 : startsWord c
  · simp only [h1, h2, h3, h4, h5, h6, h7, h8, ↓reduceIte, Bool.false_eq_true] at h
    exact append_of_scanWord (continuesWord_of_startsWord h8) h
  · simp only [h1, h2, h3, h4, h5, h6, h7, h8, ↓reduceIte, Bool.false_eq_true] at h
    cases h

/-- Skipping trivia makes a text no longer. -/
theorem length_skipTrivia_le (inComment : Bool) (cs : List Char) (p : Position) :
    (skipTrivia inComment cs p).1.length ≤ cs.length := by
  induction cs generalizing inComment p with
  | nil => simp [skipTrivia]
  | cons c cs ih =>
    unfold skipTrivia
    split
    · exact Nat.le_succ_of_le (ih _ _)
    split
    · exact Nat.le_succ_of_le (ih _ _)
    split
    · exact Nat.le_succ_of_le (ih _ _)
    · simp

end Lexer

/-- What a reader of lexemes is given when all else has been read. -/
inductive Ending where
  /-- The end of the script, reached at a position. -/
  | eof (position : Position)
  /-- A character that starts no lexeme and is never left behind. -/
  | stuck (char : Char) (position : Position)
deriving DecidableEq

/-- The answer an ending gives whenever it is asked. -/
def Ending.item : Ending → LexItem
  | eof p => .ok (.atEnd p)
  | stuck c p => .error (.unexpectedChar c p)

/-- Everything a reader of lexemes is given: the items one after the other, none of them the
end of the script, and then the ending for ever. -/
structure Feed where
  items : List LexItem
  ending : Ending

namespace Feed

/-- The next item, and what comes after it. -/
def next (f : Feed) : LexItem × Feed :=
  match f.items with
  | [] => (f.ending.item, f)
  | item :: items => (item, { f with items })

/-- The feed without its first `n` answers. -/
def skip (f : Feed) (n : Nat) : Feed := { f with items := f.items.drop n }

/-- Cuts a text that starts at a position into lexemes. -/
def ofChars (cs : List Char) (p : Position) : Feed :=
  let start := (Lexer.skipTrivia false cs p).2
  match _hskip : (Lexer.skipTrivia false cs p).1 with
  | [] => { items := [], ending := .eof start }
  | c :: more =>
    match hscan : Lexer.scanAt c more with
    | .stuck => { items := [], ending := .stuck c start }
    | .taken outcome text rest =>
      -- A fault is an item as well, and reading goes on behind it.
      let item := match outcome with
        | .ok token => .ok { token, text := String.ofList text, position := start }
        | .error fault => .error (fault start)
      let f := ofChars rest (start.afterAll text)
      { f with items := item :: f.items }
termination_by cs.length
decreasing_by
  have hskipped := Lexer.length_skipTrivia_le false cs p
  obtain ⟨happend, hne⟩ := Lexer.append_of_scanAt hscan
  have hlength := congrArg List.length (happend.trans _hskip.symm)
  have := List.length_pos_iff.2 hne
  simp only [List.length_append] at hlength
  omega

/-- The feed of a script. -/
def ofScript (script : String) : Feed := ofChars script.toList .start

/-- The items up to the first fault or the end of the script, whichever comes first. -/
def untilStop (ending : Ending) : List LexItem → List LexItem
  | [] => [ending.item]
  | .ok l :: items => .ok l :: untilStop ending items
  | .error e :: _ => [.error e]

/-- All lexemes up to the end of the script, or the first fault. -/
def lexemes (f : Feed) : Except LexError (List Lexeme) :=
  (untilStop f.ending f.items).mapM id

end Feed

/-- An iteration over a feed: what is left of the feed, and whether the end of the script or a
fault has been given, after which nothing is. -/
structure Walk where
  ahead : Feed
  finished : Bool := false

namespace Walk

/-- Whether an item is the last one of an iteration. -/
def isLast : LexItem → Bool
  | .ok l => l.token == .eof
  | .error _ => true

/-- The next item, if there is one more, and the iteration behind it. -/
def next (w : Walk) : Option LexItem × Walk :=
  if w.finished then (none, w)
  else
    let (item, ahead) := w.ahead.next
    (some item, { ahead, finished := isLast item })

end Walk

end Roster
