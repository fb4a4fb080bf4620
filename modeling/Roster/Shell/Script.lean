import Roster.Report.Summary
import Roster.Shell.Error

/-!
# Running one script

A script is checked by reading it, and run by reading it and running it in a session, for which
most commands take a fresh one. A script that fails gives its fault and none of its answers.
-/

set_option autoImplicit false

namespace Roster.Shell

/-- The program of a script. -/
def parse (script : String) : Except CommandError Program :=
  match Program.parse script with
  | .ok p => .ok p
  | .error e => .error (.parse e)

/-- The answers of a script that is run in a session, and the session after it. A script that
cannot be read leaves the session as it is. -/
def answersIn (source : TableSource) (settings : Settings) (s : Session) (script : String) :
    Except CommandError (List Answer) × Session :=
  match parse script with
  | .error e => (.error e, s)
  | .ok p =>
    let run := s.run source settings p
    (run.outcome.mapError .execution, run.session)

/-- The answers of a script that is run in a fresh session. -/
def answers (source : TableSource) (settings : Settings) (script : String) :
    Except CommandError (List Answer) :=
  (answersIn source settings .empty script).1

/-- The reports of answers, one after the other. -/
def reports (title : String) (preview : Nat) (answers : List Answer) : String :=
  String.join (answers.map fun a => Report.render a title preview)

end Roster.Shell
