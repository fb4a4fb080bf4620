import Roster.Script.Parser
import Roster.Session.Run

/-!
# Command faults

Why a command failed, as one line and as a chain of causes.
-/

set_option autoImplicit false

namespace Roster

/-- Why a command failed. -/
inductive CommandError where
  /-- A script is no program. -/
  | parse (cause : ParseError)
  /-- A statement failed. -/
  | execution (cause : StatementError)
  /-- A file or directory is at fault. -/
  | file (path : String) (cause : FileFault)
  /-- The manual has no such topic. -/
  | unknownTopic (name : String)
deriving DecidableEq

namespace CommandError

/-- The text shown for a fault. -/
def message : CommandError → String
  | parse cause => s!"Parse error: {cause.message}"
  | execution cause => s!"Execution error: {cause.message}"
  | file path cause => s!"IO error on {path}: {cause.message}"
  | unknownTopic name =>
    s!"Unknown topic: '{name}'\nRun 'staffql docs' to see available topics."

/-- The texts of the causes behind a fault, the nearest first. -/
def causes : CommandError → List String
  | parse cause => [cause.message]
  | execution cause => cause.message :: cause.causes
  | file _ cause => [cause.message]
  | unknownTopic _ => []

end CommandError

end Roster
