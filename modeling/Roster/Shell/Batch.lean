import Roster.Files.Source
import Roster.Shell.Script

/-!
# Batches of scripts

All scripts of a directory, each run in a session of its own. A script that fails leaves one
line in the report and does not stop the others.
-/

set_option autoImplicit false

namespace Roster.Shell

/-- Whether a file name says that the file is a script: it ends in `.dsl`, and something stands
before that. -/
def isScriptName (name : String) : Bool :=
  name.endsWith ".dsl" && name != ".dsl"

/-- The names of the scripts directly in a directory, in their order. -/
def scriptNames (f : Files) (directory : String) : Except FileFault (List String) := do
  let names ← f.namesIn directory
  let scripts := names.filter fun name => isScriptName name && f.isFile (joinPath directory name)
  return scripts.mergeSort fun a b => a ≤ b

/-- The paths of the scripts directly in a directory, in the order of their names. -/
def listScripts (f : Files) (directory : String) : Except CommandError (List String) :=
  match scriptNames f directory with
  | .error cause => .error (.file directory cause)
  | .ok names => .ok (names.map (joinPath directory))

/-- How a batch went. -/
structure BatchSummary where
  succeeded : Nat
  total : Nat
  output : String

/-- What a batch reports of one script: its reports, or the fault that it ends with. -/
def section? (f : Files) (source : TableSource) (settings : Settings) (preview : Nat)
    (path : String) : Except CommandError String := do
  match f.readText path with
  | .error cause => throw (.file path cause)
  | .ok script => return reports path preview (← answers source settings script)

/-- The line of a script that failed. -/
def failureLine (path : String) (e : CommandError) : String :=
  s!"Error running script {path}: {e.message}\n"

/-- Runs all scripts of a directory. -/
def runAll (f : Files) (source : TableSource) (settings : Settings) (preview : Nat)
    (directory : String) : Except CommandError BatchSummary := do
  let paths ← listScripts f directory
  let sections := paths.map fun path => (path, section? f source settings preview path)
  let succeeded := (sections.filter fun (_, s) => s.toBool).length
  let body := String.join (sections.map fun (path, s) =>
    match s with
    | .ok text => text
    | .error e => failureLine path e)
  return {
    succeeded
    total := paths.length
    output := body
      ++ s!"\nCompleted: {succeeded} of {paths.length} scripts ran successfully.\n" }

end Roster.Shell
