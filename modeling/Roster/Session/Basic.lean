import Roster.Query.Answer

/-!
# Sessions

A session is the loaded table and the query made for it so far. `Session.perform` carries out one
statement on it: each statement looks at the session, changes it, and may fail on the way. What
has been changed when it fails is not taken back, so it is the order of the checks and the
changes that makes a failing statement leave nothing behind.

`Session.step` is what has come of a statement, failed or not, and the session after it;
`Session.apply` keeps the session only if the statement succeeds.
-/

set_option autoImplicit false

namespace Roster

/-- Where tables come from. -/
abbrev TableSource := String → Except TableError Table

/-- The table that is loaded, and the query made so far. -/
structure Session where
  table : Option Table := none
  query : Query := {}

namespace Session

/-- The session before the first statement. -/
def empty : Session := {}

/-- The session without its query. -/
def clearQuery (s : Session) : Session := { s with query := {} }

/-- What changes a session and may fail; a failure takes no change back. -/
abbrev Action := ExceptT QueryError (StateM Session)

/-- The table that is loaded. -/
def loaded : Action Table := do
  match (← get).table with
  | some t => return t
  | none => throw .noTable

/-- Carries out one statement; a `print` gives an answer. -/
def perform (source : TableSource) (settings : Settings) : Statement → Action (Option Answer)
  | .load path => do
    let t ← ofExcept ((source path).mapError (.load path))
    -- Only a table that replaces another one drops the query.
    if (← get).table.isSome && settings.reload == .reset then
      modify clearQuery
    modify fun s => { s with table := some t }
    return none
  | .filter clause => do
    let _ ← loaded
    let conditions ← ofExcept (settings.filterMode.combine clause)
    modify fun s => { s with query.conditions := s.query.conditions ++ conditions }
    return none
  | .aggregate function column => do
    let _ ← loaded
    modify fun s => { s with query.aggregates := s.query.aggregates ++ [{ function, column }] }
    return none
  | .sort column direction => do
    let _ ← loaded
    modify fun s => { s with query.order := some { column, direction } }
    return none
  | .print => do
    let t ← loaded
    let answer ← ofExcept ((← get).query.answer settings.emptyAverage t)
    return some answer

/-- What comes of a statement, and the session after it. -/
def step (source : TableSource) (settings : Settings) (s : Session) (statement : Statement) :
    Except QueryError (Option Answer) × Session :=
  (perform source settings statement).run.run s

/-- The session after a statement that succeeds, and the answer of a `print`. -/
def apply (source : TableSource) (settings : Settings) (s : Session) (statement : Statement) :
    Except QueryError (Session × Option Answer) :=
  match s.step source settings statement with
  | (.ok answer, s) => .ok (s, answer)
  | (.error cause, _) => .error cause

end Session

end Roster
