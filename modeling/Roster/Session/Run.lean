import Roster.Session.Basic

/-!
# Running programs

A program runs statement by statement until one fails. A `Run` is what is left of it: the
answers of its prints, the session, and the failing statement if there is one. The statements
before a failing one keep their effect.
-/

set_option autoImplicit false

namespace Roster

/-- A failing statement: its place in its program, its first word and the fault. -/
structure StatementError where
  /-- Counted from zero. -/
  index : Nat
  keyword : Keyword
  cause : QueryError
deriving DecidableEq

namespace StatementError

/-- The text shown for a failing statement, which is counted from one. -/
def message (e : StatementError) : String :=
  s!"statement {e.index + 1} (`{e.keyword.text}`): {e.cause.message}"

/-- The texts of the causes behind the failure, the nearest first. -/
def causes (e : StatementError) : List String := e.cause.message :: e.cause.causes

end StatementError

/-- What is left when a program has run. -/
structure Run where
  answers : List Answer
  session : Session
  failure : Option StatementError

namespace Run

/-- The answer of the last print. -/
def last? (r : Run) : Option Answer := r.answers.getLast?

/-- All answers, if no statement failed. -/
def outcome (r : Run) : Except StatementError (List Answer) :=
  match r.failure with
  | none => .ok r.answers
  | some e => .error e

end Run

/-- Runs statements the first of which has a given place in its program. -/
def Session.runFrom (source : TableSource) (settings : Settings) (index : Nat) (s : Session) :
    Program → Run
  | [] => { answers := [], session := s, failure := none }
  | statement :: rest =>
    match s.step source settings statement with
    | (.error cause, s) =>
      { answers := [], session := s,
        failure := some { index, keyword := statement.keyword, cause } }
    | (.ok answer, s) =>
      let r := s.runFrom source settings (index + 1) rest
      { r with answers := answer.toList ++ r.answers }

/-- Runs a program. -/
def Session.run (source : TableSource) (settings : Settings) (s : Session) (p : Program) : Run :=
  s.runFrom source settings 0 p

end Roster
