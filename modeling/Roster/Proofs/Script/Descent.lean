import Roster.Proofs.Script.Expected

/-!
# `Roster.Proofs.Script.Descent`: a reader by recursive descent

A script can also be read by functions that call one another, one for each part of a statement, as
such readers are written by hand. The reader holds the current lexeme and may look at the one
behind it. Chains of comparisons are read by climbing (`climb`): `and` and `or` have a precedence,
and the operand on the right of a connective takes in only what binds tighter.

Statements are read one by one, and a reader can be asked for the next one after an error. So a
`Reading` keeps the reader where it stops: what it has read stays read, and a lexeme that has been
looked at stays in the buffer.

Such a reader has places where it could stop although the script is not at fault, and `Stop` names
them. The buffer for the lexeme behind the current one could be empty after it has been filled, a
lexeme could lack the payload of its kind that has been checked, the digits of a number could be no
numeral, and the bound on the steps of a loop could be too low. No type rules them out.
`Roster.Proofs.Script.Climbing` shows that none of them is reached, because reading by descent is
`Program.parse`.

The numbers are settled here: a number is taken from a script only where its text is a numeral, so
reading the text again gives the number (`nextLexeme_eq`).
-/

set_option autoImplicit false

namespace Roster

/-! ### The precedence of connectives -/

/-- How tight a connective binds. -/
def Connective.precedence : Connective → Nat
  | and => 2
  | or => 1

/-- The connective that a token is. -/
def Connective.ofToken? : Token → Option Connective
  | .keyword .and => some .and
  | .keyword .or => some .or
  | _ => none

/-- The operator that a token is. -/
def Operator.ofToken? : Token → Option Operator
  | .relation r => some (.relation r)
  | .keyword .between => some .between
  | _ => none

/-- The aggregate function that a token is. -/
def AggregateFunction.ofToken? : Token → Option AggregateFunction
  | .keyword .count => some .count
  | .keyword .sum => some .sum
  | .keyword .average => some .average
  | _ => none

/-- The direction that a token is. -/
def Direction.ofToken? : Token → Option Direction
  | .keyword .asc => some .ascending
  | .keyword .desc => some .descending
  | _ => none

namespace Descent

/-! ### The reader -/

/-- Why reading stops. -/
inductive Stop where
  /-- The script is at fault. -/
  | fault (cause : ParseError)
  /-- A number has been read and is no numeral. -/
  | invalidNumber (text : String) (position : Position)
  /-- A case that was taken to be impossible. -/
  | unreachable
  /-- A loop has used up the bound on its steps. -/
  | tooLong

/-- The current lexeme, the one behind it if it has been looked at, and what comes after. -/
structure Reader where
  current : Lexeme
  peeked : Option Lexeme
  ahead : Feed

/-- What moves a reader on and may stop. The reader is left in both cases. -/
abbrev Reading := ExceptT Stop (StateM Reader)

/-- The next lexeme. The value of a number is read from its text. -/
def nextLexeme (f : Feed) : Except Stop (Lexeme × Feed) :=
  match f.next with
  | (.error e, _) => .error (.fault (.lexical e))
  | (.ok l, ahead) =>
    match l.token with
    | .number _ =>
      match Numeral.read? l.text with
      | some n => .ok ({ l with token := .number n }, ahead)
      | none => .error (.invalidNumber l.text l.position)
    | _ => .ok (l, ahead)

/-- Moves on by a lexeme and gives the one that was current. The buffer is emptied. A fault leaves
the current lexeme where it is; what has been read of the fault is behind the reader. -/
def advance : Reading Lexeme := fun r =>
  match r.peeked with
  | some l => (.ok r.current, ⟨l, none, r.ahead⟩)
  | none =>
    match nextLexeme r.ahead with
    | .ok (l, ahead) => (.ok r.current, ⟨l, none, ahead⟩)
    | .error stop => (.error stop, ⟨r.current, none, r.ahead.next.2⟩)

/-- Looks at the lexeme behind the current one. -/
def fill : Reading Unit := fun r =>
  match r.peeked with
  | some _ => (.ok (), r)
  | none =>
    match nextLexeme r.ahead with
    | .ok (l, ahead) => (.ok (), ⟨r.current, some l, ahead⟩)
    | .error stop => (.error stop, ⟨r.current, none, r.ahead.next.2⟩)

/-- The token behind the current one. -/
def peek : Reading Token := do
  fill
  match (← get).peeked with
  | some l => return l.token
  | none => throw .unreachable

/-- The current token. -/
def token : Reading Token := do return (← get).current.token

/-- Stops at the current lexeme, where others are expected. -/
def unexpected {α : Type} (kinds : List TokenKind) : Reading α := do
  throw (.fault (.unexpected (← get).current kinds))

/-- Moves on by a lexeme of a kind. -/
def expect (kind : TokenKind) : Reading Lexeme := do
  if (← token).kind = kind then advance else unexpected [kind]

/-- Moves on by a string. -/
def expectString : Reading String := do
  match (← expect .string).token with
  | .string s => return s
  | _ => throw .unreachable

/-- Moves on by a number. -/
def expectNumber : Reading Double := do
  match (← expect .number).token with
  | .number n => return n
  | _ => throw .unreachable

/-- Moves on by one of several tokens and gives what it stands for. -/
def choice {α : Type} (ofToken? : Token → Option α) (kinds : List TokenKind) : Reading α := do
  match ofToken? (← token) with
  | none => unexpected kinds
  | some a =>
    let _ ← advance
    return a

/-- What a lexeme counts as one that is left to read: nothing, if it is the end of the script. -/
def weight (l : Lexeme) : Nat := if l.token = .eof then 0 else 1

/-- How many lexemes are left to read. -/
def Reader.pending (r : Reader) : Nat :=
  weight r.current + r.peeked.elim 0 weight + r.ahead.items.length

/-! ### The parts of a statement -/

/-- What a statement may start with. -/
def statementKinds : List TokenKind :=
  [.keyword .load, .keyword .filter, .keyword .aggregate, .keyword .sort, .keyword .print]

/-- What may follow the name of a column in a comparison. -/
def operatorKinds : List TokenKind :=
  [.relation .greater, .relation .less, .relation .greaterEqual, .relation .lessEqual,
    .relation .equal, .relation .notEqual, .keyword .between]

/-- What may follow the word `aggregate`. -/
def functionKinds : List TokenKind := [.keyword .count, .keyword .sum, .keyword .average]

/-- What may follow the name of a column in an order. -/
def directionKinds : List TokenKind := [.keyword .asc, .keyword .desc]

/-- A number, a string, or two numbers with `and` between them. -/
def literal : Reading Literal := do
  match ← token with
  | .number n =>
    let _ ← advance
    if (← token) = .keyword .and then
      match ← peek with
      | .number _ =>
        let _ ← advance
        return .range n (← expectNumber)
      | _ => return .number n
    else return .number n
  | .string _ => return .text (← expectString)
  | _ => unexpected [.number, .string]

/-- A comparison. -/
def comparison : Reading Comparison := do
  let _ ← expect (.keyword .column)
  let column ← expectString
  let operator ← choice Operator.ofToken? operatorKinds
  return ⟨column, operator, ← literal⟩

/-- Moves on by a connective, and by the word `filter` if it is repeated. -/
def lead : Reading Unit := do
  let _ ← advance
  if (← token) = .keyword .filter then
    let _ ← advance

/-- Adds to a clause on its right, as long as the connectives have a precedence at least. The
operand of a connective is read in the same way, with what binds tighter. -/
def climb : Nat → Nat → Clause Comparison → Reading (Clause Comparison)
  | 0, _, _ => throw .tooLong
  | bound + 1, least, left => do
    match Connective.ofToken? (← token) with
    | none => return left
    | some k =>
      if k.precedence < least then return left
      else
        lead
        let right ← climb bound (k.precedence + 1) (.leaf (← comparison))
        climb bound least (.join k left right)

/-- A chain of comparisons up to the semicolon. -/
def filter : Reading Statement := do
  let _ ← advance
  let first ← comparison
  let clause ← climb ((← get).pending + 1) 0 (.leaf first)
  if (← token) = .semicolon then return .filter clause
  else unexpected [.semicolon, .keyword .and, .keyword .or]

/-- The path of a table. -/
def load : Reading Statement := do
  let _ ← advance
  return .load (← expectString)

/-- A function and a column. -/
def aggregate : Reading Statement := do
  let _ ← advance
  let function ← choice AggregateFunction.ofToken? functionKinds
  let _ ← expect (.keyword .column)
  return .aggregate function (← expectString)

/-- A column and a direction. -/
def sort : Reading Statement := do
  let _ ← advance
  let _ ← expect (.keyword .column)
  let column ← expectString
  return .sort column (← choice Direction.ofToken? directionKinds)

/-- All of a statement but the semicolon. -/
def body : Reading Statement := do
  match ← token with
  | .keyword .load => load
  | .keyword .filter => filter
  | .keyword .aggregate => aggregate
  | .keyword .sort => sort
  | .keyword .print =>
    let _ ← advance
    return .print
  | _ => unexpected statementKinds

/-- A statement. -/
def statement : Reading Statement := do
  let s ← body
  let _ ← expect .semicolon
  return s

/-- Statements up to the end of the script. -/
def statements : Nat → Reading (List Statement)
  | 0 => throw .tooLong
  | bound + 1 => do
    if (← token) = .eof then return []
    else
      let s ← statement
      return s :: (← statements bound)

/-- A reader at the start of a feed, if that is a lexeme. -/
def ofFeed (f : Feed) : Except Stop Reader :=
  (nextLexeme f).map fun (l, ahead) => ⟨l, none, ahead⟩

/-- Reads a script. -/
def parse (script : String) : Except Stop Program := do
  let r ← ofFeed (Feed.ofScript script)
  let program ← (statements (r.pending + 1) r).1
  if program.isEmpty then throw (.fault .emptyProgram) else return program

/-! ### Readings -/

section
variable {α β : Type}

/-- One reading after the other. -/
theorem bind_apply (m : Reading α) (f : α → Reading β) (r : Reader) :
    (m >>= f) r = match m r with
      | (.ok a, r') => f a r'
      | (.error stop, r') => (.error stop, r') := by
  show (ExceptT.bind m f : Reading β) r = _
  unfold ExceptT.bind ExceptT.mk
  show (match m r with | (x, r') => ExceptT.bindCont f x r') = _
  rcases m r with ⟨_ | a, r'⟩ <;> rfl

/-- Reading the current token changes nothing. -/
theorem token_bind (f : Token → Reading α) (r : Reader) :
    (token >>= f) r = f r.current.token r := rfl

/-- What comes out of two readings comes out of the second, behind the first. -/
theorem exists_of_bind_eq_ok {m : Reading α} {f : α → Reading β} {r r' : Reader} {b : β}
    (h : (m >>= f) r = (.ok b, r')) : ∃ a r₁, m r = (.ok a, r₁) ∧ f a r₁ = (.ok b, r') := by
  rw [bind_apply] at h
  rcases hm : m r with ⟨stop | a, r₁⟩ <;> rw [hm] at h
  · cases h
  · exact ⟨a, r₁, rfl, h⟩

end

end Descent

/-! ### Numbers -/

namespace Lexer

variable {c : Char} {cs text rest : List Char} {n : Double}

/-- The digits that are taken for a number are a numeral, whether they have a point among them or
not. -/
theorem read?_of_scanNumber (hc : Text.isAsciiDigit c = true)
    (h : scanNumber (c :: cs) = .taken (.ok (.number n)) text rest) :
    Numeral.read? (String.ofList text) = some n := by
  have hne : (c :: cs).takeWhile Text.isAsciiDigit ≠ [] := by simp [hc]
  have hwhole : ∀ d ∈ (c :: cs).takeWhile Text.isAsciiDigit, Text.isAsciiDigit d = true :=
    fun _ => List.mem_takeWhile_imp
  unfold scanNumber at h
  dsimp only at h
  split at h <;> cases h
  · exact Numeral.IsPlain.read?_eq ⟨by simp, hne, hwhole, by simp⟩
  · rename_i hfraction
    refine Numeral.IsPlain.read?_eq ⟨?_, hne, hwhole, fun _ => isAsciiDigit_of_mem_fractionDigits⟩
    rw [String.toList_ofList, if_neg (by simpa using hfraction)]

/-- The text of a number is a numeral with its value. The other forms of lexemes are no numbers, and
are gone through in the order in which they are tried. -/
theorem read?_of_scanAt (h : scanAt c cs = .taken (.ok (.number n)) text rest) :
    Numeral.read? (String.ofList text) = some n := by
  unfold scanAt at h
  split at h
  · cases h
  -- Signs and strings give tokens that are no numbers.
  iterate 4
    split at h
    · unfold scanSign at h
      split at h
      · cases h
      · split at h <;> cases h
  split at h
  · unfold scanString at h
    dsimp only at h
    split at h <;> cases h
  split at h
  · rename_i hc
    exact read?_of_scanNumber hc h
  split at h
  · simp only [scanWord, Scan.taken.injEq] at h
    obtain ⟨h, -, -⟩ := h
    split at h <;> cases h
  · cases h

end Lexer

namespace Feed

/-- Whether the text of every number of a feed is a numeral with its value. -/
def Numeric (f : Feed) : Prop :=
  ∀ l, .ok l ∈ f.items → ∀ n, l.token = .number n → Numeral.read? l.text = some n

/-- All numbers of a feed are numerals. The induction is along the reading of the feed, item by
item. -/
theorem numeric_ofChars (cs : List Char) (p : Position) : (ofChars cs p).Numeric := by
  intro l h
  fun_induction ofChars cs p with
  | case1 => exact absurd h (List.not_mem_nil)
  | case2 => exact absurd h (List.not_mem_nil)
  | case3 cs p start c more hskip outcome text rest hscan item f ih =>
    rcases List.mem_cons.1 h with hl | hl
    · cases outcome with
      | error fault =>
        change Except.ok l = .error (fault start) at hl
        cases hl
      | ok token =>
        change Except.ok l = .ok ⟨token, String.ofList text, start⟩ at hl
        cases hl
        -- The lexeme has been read here, and its text is what has been taken for a number.
        rintro n rfl
        exact Lexer.read?_of_scanAt hscan
    · exact ih hl

/-- The numbers of a script are numerals. -/
theorem numeric_ofScript (script : String) : (ofScript script).Numeric :=
  numeric_ofChars script.toList .start

/-- What comes after an item has numerals as its numbers again. -/
theorem Numeric.next {f ahead : Feed} {item : LexItem} (h : f.Numeric)
    (hnext : f.next = (item, ahead)) : ahead.Numeric := by
  obtain ⟨items, ending⟩ := f
  cases items with
  | nil =>
    cases hnext
    exact h
  | cons item items =>
    cases hnext
    exact fun l hl => h l (List.mem_cons_of_mem _ hl)

end Feed

namespace Descent

/-- A lexeme with its number, if it is one, read again from its text. -/
theorem nextLexeme_eq {f : Feed} (h : f.Numeric) :
    nextLexeme f = match f.next with
      | (.ok l, ahead) => .ok (l, ahead)
      | (.error e, _) => .error (.fault (.lexical e)) := by
  obtain ⟨items, ending⟩ := f
  unfold nextLexeme
  rcases items with _ | ⟨e | l, items⟩
  · cases ending <;> rfl
  · rfl
  · have hl := h l List.mem_cons_self
    obtain ⟨token, text, position⟩ := l
    cases token with
    | number n =>
      simp only at hl
      simp [Feed.next, hl n rfl]
    | _ => rfl

end Descent

end Roster
