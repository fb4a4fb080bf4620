import Roster.Shell.Arguments
import Roster.Shell.Batch
import Roster.Shell.Console
import Roster.Shell.Extract
import Roster.Shell.Manual

/-!
# Commands

What the program does for a command line: from the files it sees and the bytes of standard input
to an exit code, what it writes, and the files after that. The code is 0 if all went well, 1 if
the command failed, and 2 if the command line is invalid.

A command that fails writes one line to standard error: the fault and all causes behind it,
parted by colons. A failing `run` writes nothing else, since reports are written when the whole
script has run. An interactive session keeps what it has shown.
-/

set_option autoImplicit false

namespace Roster.Shell

/-- What is left when the program ends. -/
structure Outcome where
  code : Nat
  stdout : String
  stderr : String
  files : Files

/-- The name and version of the program. -/
def versionLine : String := "staffql 0.1.0\n"

/-- What is written when help is asked for, or the command line is invalid. -/
def usage : String :=
  "Usage: staffql [OPTIONS] <COMMAND>\n\n"
    ++ "Commands:\n"
    ++ "  run [FILE] [--json] [--pretty]\n"
    ++ "  check [FILE]\n"
    ++ "  run-all [DIR]\n"
    ++ "  extract [FILE] [--out DIR]\n"
    ++ "  interactive\n"
    ++ "  docs\n"
    ++ "  doc <TOPIC>\n\n"
    ++ "Options:\n"
    ++ "  --data-dir DIR\n"
    ++ "  --reset-on-load\n"
    ++ "  --boolean-filters\n"
    ++ "  --strict-average\n"
    ++ "  --preview N\n"
    ++ "  -v, --verbose\n"

/-- The line of a fault and its causes. -/
def chainLine (chain : List String) : String := ": ".intercalate chain ++ "\n"

/-- The chain of a command fault. -/
def chain (e : CommandError) : List String := e.message :: e.causes

/-- The text of a script and the title of its reports. -/
def readScript (f : Files) (stdin : Text.Bytes) (file : Option String) :
    Except (List String) (String × String) :=
  match file with
  | some path =>
    match f.readText path with
    | .ok script => .ok (script, path)
    | .error cause => .error [s!"failed to read script {path}", cause.message]
  | none =>
    match Text.Utf8.decode stdin with
    | .ok script => .ok (script, "<stdin>")
    | .error _ => .error ["failed to read script from stdin", FileFault.invalidText.message]

/-- What `run` writes of one answer. -/
def shownAnswer (title : String) (preview : Nat) (json pretty : Bool) (a : Answer) : String :=
  if pretty then Report.pretty a ++ "\n"
  else if json then Report.compact a ++ "\n"
  else Report.render a title preview

/-- What `run` writes. -/
def runText (f : Files) (stdin : Text.Bytes) (options : SessionOptions) (file : Option String)
    (json pretty : Bool) : Except (List String) String := do
  let (script, title) ← readScript f stdin file
  let source := TableSource.ofFiles f options.dataDirectory
  match answers source options.settings script with
  | .ok found => return String.join (found.map (shownAnswer title options.preview json pretty))
  | .error e => throw (chain e)

/-- What `check` writes. -/
def checkText (f : Files) (stdin : Text.Bytes) (file : Option String) :
    Except (List String) String := do
  let (script, _) ← readScript f stdin file
  match parse script with
  | .ok _ => return "Syntax is valid\n"
  | .error e => throw (chain e)

/-- What `extract` writes, and the files after it. -/
def extractText (f : Files) (file directory : String) :
    Except (List String) String × Files :=
  match f.readText file with
  | .error cause =>
    (.error [s!"failed to read example file {file}", cause.message], f)
  | .ok content =>
    match writeExtracted f content directory with
    | (.error e, f) => (.error (chain e), f)
    | (.ok [], f) => (.ok s!"No `// Script N:` headers found in {file}\n", f)
    | (.ok paths, f) => (.ok (String.join (paths.map fun path => s!"Extracted {path}\n")), f)

/-- An outcome that changes no files. -/
def settled (f : Files) : Except (List String) String → Outcome
  | .ok text => { code := 0, stdout := text, stderr := "", files := f }
  | .error chain => { code := 1, stdout := "", stderr := chainLine chain, files := f }

/-- Carries out a command. -/
def carryOut (f : Files) (stdin : Text.Bytes) (options : SessionOptions) :
    Command → Outcome
  | .run file json pretty => settled f (runText f stdin options file json pretty)
  | .check file => settled f (checkText f stdin file)
  | .runAll directory =>
    let source := TableSource.ofFiles f options.dataDirectory
    settled f <|
      match runAll f source options.settings options.preview directory with
      | .ok summary => .ok summary.output
      | .error e => .error (chain e)
  | .extract file directory =>
    let (result, f) := extractText f file directory
    settled f result
  | .interactive =>
    let source := TableSource.ofFiles f options.dataDirectory
    match Console.interact source options.settings options.preview false {} stdin with
    | (shown, none, _) => { code := 0, stdout := shown, stderr := "", files := f }
    | (shown, some cause, _) =>
      { code := 1, stdout := shown, files := f,
        stderr := chainLine ["interactive session failed", cause.message] }
  | .docs => settled f (.ok Manual.overview)
  | .doc topic =>
    settled f <|
      match Manual.lookUp topic with
      | .ok page => .ok page
      | .error e => .error (chain e)

/-- What the program does for a command line. -/
def execute (f : Files) (stdin : Text.Bytes) (arguments : List String) : Outcome :=
  match Request.ofArguments arguments with
  | .command options c => carryOut f stdin options c
  | .version => { code := 0, stdout := versionLine, stderr := "", files := f }
  | .help => { code := 0, stdout := usage, stderr := "", files := f }
  | .invalid => { code := 2, stdout := "", stderr := usage, files := f }

end Roster.Shell
