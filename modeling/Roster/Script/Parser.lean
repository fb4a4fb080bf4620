import Roster.Script.Lexer
import Roster.Script.Statement

/-!
# From lexemes to statements

A statement is read lexeme by lexeme. What has been read of it is a `Stage`, and
`Stage.step` says which lexemes may come next and what has been read then. This decides
everything: a lexeme that no step takes is a syntax error, and the lexeme itself and all that
follows it remain to be read.

Two points need care. A lexeme counts as read only once the lexeme behind it is known, so a
lexical fault behind a lexeme leaves that lexeme unread. And `and` behind a number either
continues a range (`30 and 40`) or joins the next comparison; the lexeme after it decides.

In a chain of comparisons `and` binds tighter than `or` and both group to the left. A `Chain`
holds what has been read as the disjunction that has been closed by the last `or` and the
conjunction that is still open.
-/

set_option autoImplicit false

namespace Roster

/-- Why a script is not a program. -/
inductive ParseError where
  /-- Something is no lexeme. -/
  | lexical (fault : LexError)
  /-- A lexeme stands where others are expected. -/
  | unexpected (found : Lexeme) (expected : List TokenKind)
  /-- There is no statement at all. -/
  | emptyProgram
deriving DecidableEq

namespace ParseError

/-- A lexeme as a message names it. -/
def describe (l : Lexeme) : String :=
  match l.token with
  | .eof => "end of input"
  | _ => s!"'{l.text}'"

/-- A list of expected kinds as a message names it. -/
def describeExpected : List TokenKind → String
  | [] => "nothing"
  | [kind] => kind.description
  | kinds => "one of " ++ ", ".intercalate (kinds.map TokenKind.description)

/-- The text shown for a syntax error. -/
def message : ParseError → String
  | lexical fault => fault.message
  | unexpected found expected =>
    s!"unexpected {describe found} at {found.position.description}; "
      ++ s!"expected {describeExpected expected}"
  | emptyProgram => "empty script: expected at least one statement"

end ParseError

/-- A chain of comparisons: all that stands left of its last `or`, and the conjunction after
it. -/
structure Chain where
  closed : Option (Clause Comparison)
  group : Clause Comparison
deriving DecidableEq

/-- The clause a chain stands for. -/
def Chain.clause (chain : Chain) : Clause Comparison :=
  match chain.closed with
  | none => chain.group
  | some left => .or left chain.group

/-- What the next comparison of a filter is joined to. -/
inductive Joint where
  | start
  | after (chain : Chain) (connective : Connective)
deriving DecidableEq

/-- The chain with one more comparison. -/
def Joint.extend (joint : Joint) (c : Comparison) : Chain :=
  match joint with
  | start => { closed := none, group := .leaf c }
  | after chain .and => { chain with group := .and chain.group (.leaf c) }
  | after chain .or => { closed := some chain.clause, group := .leaf c }

/-- What has been read of a statement. -/
inductive Stage where
  | start
  /-- `load` -/
  | load
  /-- `aggregate` -/
  | aggregate
  /-- `aggregate` and a function -/
  | aggregateColumn (function : AggregateFunction)
  /-- `aggregate`, a function and `column` -/
  | aggregateName (function : AggregateFunction)
  /-- `sort` -/
  | sort
  /-- `sort column` -/
  | sortName
  /-- `sort column` and a name -/
  | sortDirection (column : String)
  /-- a chain and a connective, which may be followed by a repeated `filter` -/
  | repeatable (joint : Joint)
  /-- the word `filter` -/
  | comparison (joint : Joint)
  /-- a comparison up to `column` -/
  | name (joint : Joint)
  /-- a comparison up to the name of its column -/
  | operator (joint : Joint) (column : String)
  /-- a comparison up to its operator -/
  | literal (joint : Joint) (column : String) (operator : Operator)
  /-- a comparison with a number, which may turn out to start a range -/
  | number (joint : Joint) (column : String) (operator : Operator) (value : Double)
  /-- a comparison with a number, and `and` -/
  | numberAnd (joint : Joint) (column : String) (operator : Operator) (value : Double)
  /-- a whole chain -/
  | chain (chain : Chain)
  /-- everything but the semicolon -/
  | finished (statement : Statement)
deriving DecidableEq

/-- Where one more lexeme leads. -/
inductive Step where
  | stage (stage : Stage)
  | statement (statement : Statement)
deriving DecidableEq

namespace Stage

/-- The kinds of tokens that are expected at a stage, in the order a message lists them. -/
def expected : Stage → List TokenKind
  | start => [.keyword .load, .keyword .filter, .keyword .aggregate, .keyword .sort, .keyword .print]
  | load | aggregateName _ | sortName | name _ => [.string]
  | aggregate => [.keyword .count, .keyword .sum, .keyword .average]
  | aggregateColumn _ | sort | repeatable _ | comparison _ | numberAnd .. => [.keyword .column]
  | sortDirection _ => [.keyword .asc, .keyword .desc]
  | operator .. =>
    [.relation .greater, .relation .less, .relation .greaterEqual, .relation .lessEqual,
      .relation .equal, .relation .notEqual, .keyword .between]
  | literal .. => [.number, .string]
  | number .. | chain _ => [.semicolon, .keyword .and, .keyword .or]
  | finished _ => [.semicolon]

/-- What has been read after one more token; none if the token does not fit. -/
def step : Stage → Token → Option Step
  | start, .keyword .load => some (.stage load)
  | start, .keyword .filter => some (.stage (comparison .start))
  | start, .keyword .aggregate => some (.stage aggregate)
  | start, .keyword .sort => some (.stage sort)
  | start, .keyword .print => some (.stage (finished .print))
  | load, .string path => some (.stage (finished (.load path)))
  | aggregate, .keyword .count => some (.stage (aggregateColumn .count))
  | aggregate, .keyword .sum => some (.stage (aggregateColumn .sum))
  | aggregate, .keyword .average => some (.stage (aggregateColumn .average))
  | aggregateColumn f, .keyword .column => some (.stage (aggregateName f))
  | aggregateName f, .string column => some (.stage (finished (.aggregate f column)))
  | sort, .keyword .column => some (.stage sortName)
  | sortName, .string column => some (.stage (sortDirection column))
  | sortDirection column, .keyword .asc => some (.stage (finished (.sort column .ascending)))
  | sortDirection column, .keyword .desc => some (.stage (finished (.sort column .descending)))
  | repeatable j, .keyword .filter => some (.stage (comparison j))
  | repeatable j, .keyword .column => some (.stage (name j))
  | comparison j, .keyword .column => some (.stage (name j))
  | name j, .string column => some (.stage (operator j column))
  | operator j column, .relation r => some (.stage (literal j column (.relation r)))
  | operator j column, .keyword .between => some (.stage (literal j column .between))
  | literal j column op, .number n => some (.stage (number j column op n))
  | literal j column op, .string s => some (.stage (chain (j.extend ⟨column, op, .text s⟩)))
  | number j column op n, .semicolon =>
    some (.statement (.filter (j.extend ⟨column, op, .number n⟩).clause))
  -- Behind a number `and` may make a range, so the comparison stays open for one token more.
  | number j column op n, .keyword .and => some (.stage (numberAnd j column op n))
  | number j column op n, .keyword .or =>
    some (.stage (repeatable (.after (j.extend ⟨column, op, .number n⟩) .or)))
  | numberAnd j column op min, .number max =>
    some (.stage (chain (j.extend ⟨column, op, .range min max⟩)))
  | numberAnd j column op n, .keyword .filter =>
    some (.stage (comparison (.after (j.extend ⟨column, op, .number n⟩) .and)))
  | numberAnd j column op n, .keyword .column =>
    some (.stage (name (.after (j.extend ⟨column, op, .number n⟩) .and)))
  | chain c, .semicolon => some (.statement (.filter c.clause))
  | chain c, .keyword .and => some (.stage (repeatable (.after c .and)))
  | chain c, .keyword .or => some (.stage (repeatable (.after c .or)))
  | finished s, .semicolon => some (.statement s)
  | _, _ => none

end Stage

/-- A reader of statements: the first lexeme that has not been read, and what comes after
it. -/
structure Parser where
  current : Lexeme
  ahead : Feed

namespace Parser

/-- A reader at the start of a feed, if that is a lexeme. -/
def ofFeed (f : Feed) : Except ParseError Parser :=
  match f.next with
  | (.ok l, ahead) => .ok { current := l, ahead }
  | (.error fault, _) => .error (.lexical fault)

/-- Whether all has been read. -/
def atEnd (p : Parser) : Bool := p.current.token == .eof

/-- The outcome at a lexeme that does not fit what has been read. -/
def refuse (ending : Ending) (stage : Stage) (current : Lexeme) (items : List LexItem) :
    Except ParseError Statement × Parser :=
  (.error (.unexpected current stage.expected), ⟨current, ⟨items, ending⟩⟩)

/-- Reads the rest of a statement of which a stage has been read. The reader that is left
stands behind the statement, or at what could not be read. The end of a script continues no
statement, so nothing is looked for behind it. -/
def finish (ending : Ending) (stage : Stage) (current : Lexeme) :
    List LexItem → Except ParseError Statement × Parser
  | [] =>
    match stage.step current.token, ending with
    | none, _ => refuse ending stage current []
    | some _, .stuck c p =>
      (.error (.lexical (.unexpectedChar c p)), ⟨current, ⟨[], ending⟩⟩)
    | some (.statement s), .eof p => (.ok s, ⟨.atEnd p, ⟨[], ending⟩⟩)
    | some (.stage stage), .eof p => refuse ending stage (.atEnd p) []
  | .error fault :: items =>
    match stage.step current.token with
    | none => refuse ending stage current (.error fault :: items)
    | some _ => (.error (.lexical fault), ⟨current, ⟨items, ending⟩⟩)
  | .ok l :: items =>
    match stage.step current.token with
    | none => refuse ending stage current (.ok l :: items)
    | some (.statement s) => (.ok s, ⟨l, ⟨items, ending⟩⟩)
    | some (.stage stage) => finish ending stage l items

/-- Reads one statement. -/
def statement (p : Parser) : Except ParseError Statement × Parser :=
  finish p.ahead.ending .start p.current p.ahead.items

/-- How much is left to read: the items ahead, and the current lexeme unless it is the end. -/
def pending (p : Parser) : Nat := p.ahead.items.length + if p.atEnd then 0 else 1

/-- Reading a statement to its end leaves fewer items, or the end of the script. -/
theorem finish_ok {ending : Ending} {stage : Stage} {current : Lexeme} {items : List LexItem}
    {s : Statement} {p : Parser} (h : finish ending stage current items = (.ok s, p)) :
    p.ahead.items.length < items.length ∨ p.ahead.items = [] ∧ p.atEnd = true := by
  induction items generalizing stage current with
  | nil =>
    unfold finish at h
    split at h <;> cases h
    simp [atEnd, Lexeme.atEnd]
  | cons item items ih =>
    cases item with
    | error fault =>
      unfold finish at h
      split at h <;> cases h
    | ok l =>
      unfold finish at h
      split at h
      · cases h
      · cases h
        simp
      · -- Within the statement one item more has been read.
        rcases ih h with h | h
        · exact .inl (Nat.lt_succ_of_lt h)
        · exact .inr h

/-- Reading a statement leaves less to read. -/
theorem pending_lt_of_statement {p p' : Parser} {s : Statement} (hp : p.atEnd = false)
    (h : p.statement = (.ok s, p')) : p'.pending < p.pending := by
  unfold pending
  rcases finish_ok h with h | ⟨hitems, hend⟩
  · simp only [hp, Bool.false_eq_true, if_false]
    split <;> omega
  · simp [hitems, hend, hp]

/-- Reads statements to the end of the script. -/
def statements (p : Parser) : Except ParseError (List Statement) × Parser :=
  if _hp : p.atEnd then (.ok [], p)
  else
    match _h : p.statement with
    | (.error e, p') => (.error e, p')
    | (.ok s, p') =>
      match statements p' with
      | (.error e, p'') => (.error e, p'')
      | (.ok rest, p'') => (.ok (s :: rest), p'')
termination_by p.pending
decreasing_by exact pending_lt_of_statement (Bool.eq_false_iff.2 _hp) _h

/-- Reads a program: statements to the end of the script, at least one. -/
def program (p : Parser) : Except ParseError Program × Parser :=
  match p.statements with
  | (.ok [], p') => (.error .emptyProgram, p')
  | result => result

end Parser

/-- Reads a script. -/
def Program.parse (script : String) : Except ParseError Program := do
  let p ← Parser.ofFeed (Feed.ofScript script)
  p.program.1

end Roster
