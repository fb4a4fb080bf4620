import Roster.Shell.Script
import Roster.Text.Utf8

/-!
# The console

An interactive session reads lines and keeps them until one that runs them: a line that, without
the blanks around it, starts with `print` and ends with a semicolon. The lines kept since the
last such line are then one script, which is run in the session of the console. A script that
cannot be read leaves the session as it is; a statement that fails ends its script, and the
statements before it keep their effect. Either way nothing of the script is kept.

The line `exit`, in letters of any case and with blanks around it, leaves the console.
-/

set_option autoImplicit false

namespace Roster.Shell

open Text

/-- A session and the text kept for it. -/
structure Console where
  session : Session := .empty
  buffer : String := ""

/-- What a console does with a line. -/
inductive Reply where
  /-- The line is kept. -/
  | kept
  /-- The script ran; its reports. -/
  | output (text : String)
  /-- The script failed. -/
  | error (text : String)
  /-- The line leaves the console. -/
  | left
deriving DecidableEq

/-- What is shown of a reply. -/
def Reply.shown : Reply → String
  | output text => text ++ "\n"
  | error text => text ++ "\n"
  | kept | left => ""

namespace Console

/-- The title of a report on the console. -/
def title : String := "interactive query"

/-- Whether a line leaves the console. -/
def isExit (line : String) : Bool :=
  (trim line).toList.map Char.toLower == "exit".toList

/-- Whether a line runs what has been kept, itself included. -/
def isTrigger (line : String) : Bool :=
  (trim line).startsWith "print" && (trim line).endsWith ";"

/-- Runs a script in the session of a console. -/
def runScript (source : TableSource) (settings : Settings) (preview : Nat) (s : Session)
    (script : String) : Reply × Session :=
  match Program.parse script with
  | .error e => (.error s!"Error: {e.message}", s)
  | .ok p =>
    let run := s.run source settings p
    match run.failure with
    | some e => (.error s!"Error: {e.message}", run.session)
    | none => (.output (reports title preview run.answers), run.session)

/-- Takes one line. -/
def feed (source : TableSource) (settings : Settings) (preview : Nat) (c : Console)
    (line : String) : Reply × Console :=
  if isExit line then (.left, c)
  else
    let buffer := c.buffer ++ line ++ "\n"
    if isTrigger line then
      let (reply, session) := runScript source settings preview c.session buffer
      (reply, { session, buffer := "" })
    else (.kept, { c with buffer })

/-- The scripts that lines run, one after the other, when some text has been kept before
them. -/
def scripts (buffer : String) : List String → List String
  | [] => []
  | line :: lines =>
    if isExit line then scripts buffer lines
    else
      let buffer := buffer ++ line ++ "\n"
      if isTrigger line then buffer :: scripts "" lines else scripts buffer lines

/-! ## Whole sessions -/

/-- The lines of bytes. A line feed ends a line, and a carriage return before it belongs to the
end; a last line need not be ended. What has been read of the first line is given with its last
byte first. -/
def byteLines (line : Bytes) : Bytes → List Bytes
  | [] => if line.isEmpty then [] else [line.reverse]
  | b :: rest =>
    if b == 0x0a then
      let line := if line.head? == some 0x0d then line.drop 1 else line
      line.reverse :: byteLines [] rest
    else byteLines (b :: line) rest

/-- What is shown before a line is read. -/
def promptText (prompt : Bool) : String := if prompt then ">> " else ""

/-- Takes lines until one leaves the console, the last has been taken, or one is no text: what
is shown, the fault, and the console. -/
def converse (source : TableSource) (settings : Settings) (preview : Nat) (prompt : Bool)
    (c : Console) : List Bytes → String × Option FileFault × Console
  | [] => (promptText prompt, none, c)
  | line :: rest =>
    match Utf8.decode line with
    | .error _ => (promptText prompt, some .invalidText, c)
    | .ok line =>
      let (reply, c) := feed source settings preview c line
      if reply = .left then (promptText prompt, none, c)
      else
        let (later, outcome) := converse source settings preview prompt c rest
        (promptText prompt ++ reply.shown ++ later, outcome)

/-- What is shown first. -/
def greeting : String :=
  "staffql interactive mode\n"
    ++ "Enter statements line by line; `print;` runs them. Type 'exit' to quit.\n"

/-- What is shown last. -/
def farewell : String := "Leaving interactive mode.\n"

/-- A whole session over the bytes of its input, with or without prompts: what is shown, the
fault that ends it, and the console. -/
def interact (source : TableSource) (settings : Settings) (preview : Nat) (prompt : Bool)
    (c : Console) (input : Bytes) : String × Option FileFault × Console :=
  let (shown, fault, c) := converse source settings preview prompt c (byteLines [] input)
  let opened := if prompt then greeting ++ shown else shown
  (if prompt && fault.isNone then opened ++ farewell else opened, fault, c)

end Console

end Roster.Shell
