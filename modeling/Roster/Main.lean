import Roster.Shell.Command

/-!
# The program

The outer layer of the command line. What the program does is decided by `Shell.execute`, a
function on a tree of files; here the part of the tree that a command can ask for is read from
the system, and what the command has made is written back. A console at a terminal is the one
thing that is not a single call: there each line is answered as it is read.
-/

set_option autoImplicit false

namespace Roster.Outer

open Shell

/-- The path of a location for the system. -/
def systemPath (l : Location) : String := "/" ++ "/".intercalate l

/-- The tree with what the system has at a location. -/
def learnAt (f : Files) (l : Location) : IO Files := do
  if (f.entry? l).isSome then return f
  try
    if ← ((← IO.currentDir) / systemPath l).isDir then return f.put l .directory
    let content ← IO.FS.readBinFile (systemPath l)
    return f.put l (.file content.toList)
  catch _ => return f

/-- The tree with what the system has on the way along a path. -/
def learn (f : Files) (path : String) : IO Files := do
  let mut f := f
  let mut l := f.start path
  for name in pathNames path do
    match f.enter l name with
    | .ok next =>
      l := next
      f ← learnAt f l
    | .error _ => return f
  return f

/-- The tree with what the system has in a directory. -/
def learnDirectory (f : Files) (path : String) : IO Files := do
  let mut f ← learn f path
  match f.locate path with
  | .ok l =>
    try
      for entry in ← ((← IO.currentDir) / systemPath l).readDir do
        f ← learnAt f (l ++ [entry.fileName])
    catch _ => pure ()
  | .error _ => pure ()
  return f

/-- The tree with the files that a script loads. -/
def learnTables (f : Files) (base : Option String) (script : String) : IO Files := do
  let mut f := f
  match Program.parse script with
  | .ok p =>
    for path in p.loadPaths do
      f ← learn f (TableSource.resolve base path)
  | .error _ => pure ()
  return f

/-- The tree with a script and the files it loads. -/
def learnScript (f : Files) (base : Option String) (path : String) : IO Files := do
  let f ← learn f path
  match f.readText path with
  | .ok script => learnTables f base script
  | .error _ => return f

/-- The tree with everything that a command can ask for. -/
def prepare (f : Files) (stdin : Text.Bytes) (options : SessionOptions) : Command → IO Files
  | .run (some path) _ _ => learnScript f options.dataDirectory path
  | .run none _ _ =>
    match Text.Utf8.decode stdin with
    | .ok script => learnTables f options.dataDirectory script
    | .error _ => return f
  | .check (some path) => learn f path
  | .runAll directory => do
    let mut f ← learnDirectory f directory
    match listScripts f directory with
    | .ok paths =>
      for path in paths do
        f ← learnScript f options.dataDirectory path
    | .error _ => pure ()
    return f
  | .extract file directory => do
    let f ← learn f file
    let f ← learn f directory
    match f.readText file with
    | .ok content =>
      let mut f := f
      for (number, _) in extractScripts content do
        f ← learn f (joinPath directory (scriptFileName number))
      return f
    | .error _ => return f
  | .interactive => do
    let mut f := f
    let lines := (Console.byteLines [] stdin).filterMap fun line =>
      (Text.Utf8.decode line).toOption
    for script in Console.scripts "" lines do
      f ← learnTables f options.dataDirectory script
    return f
  | _ => return f

/-- Writes what a tree has and another one has not. -/
def writeBack (before after : Files) : IO Unit := do
  for (l, e) in after.entries.reverse do
    if before.entries.lookup l != some e then
      match e with
      | .directory => IO.FS.createDirAll (systemPath l)
      | .file content => IO.FS.writeBinFile (systemPath l) ⟨content.toArray⟩

/-- A console at a terminal. -/
def converse (f : Files) (options : SessionOptions) (input output : IO.FS.Stream) :
    IO Unit := do
  output.putStr Console.greeting
  let mut f := f
  let mut console : Console := {}
  repeat
    output.putStr (Console.promptText true)
    output.flush
    let read ← input.getLine
    if read.isEmpty then break
    let line := if read.endsWith "\n" then (read.dropEnd 1).toString else read
    for script in Console.scripts console.buffer [line] do
      f ← learnTables f options.dataDirectory script
    let source := TableSource.ofFiles f options.dataDirectory
    let (reply, next) := console.feed source options.settings options.preview line
    console := next
    output.putStr reply.shown
    if reply = .left then break
  output.putStr Console.farewell

end Roster.Outer

open Roster Shell Outer in
/-- Carries out a command line. -/
def main (arguments : List String) : IO UInt32 := do
  let input ← IO.getStdin
  let output ← IO.getStdout
  let here := (← IO.currentDir).components.filter (!·.isEmpty)
  let f := Files.empty here
  match Request.ofArguments arguments, ← input.isTty with
  | .command options .interactive, true =>
    converse f options input output
    return 0
  | request, isTerminal =>
    let mut stdin : Text.Bytes := []
    if request.readsInput && !isTerminal then
      stdin := (← input.readBinToEnd).toList
    let before ← match request with
      | .command options c => prepare f stdin options c
      | _ => pure f
    let outcome := execute before stdin arguments
    writeBack before outcome.files
    output.putStr outcome.stdout
    (← IO.getStderr).putStr outcome.stderr
    return UInt32.ofNat outcome.code
