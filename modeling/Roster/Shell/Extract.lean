import Roster.Files.Tree
import Roster.Shell.Error
import Roster.Text.Numeric

/-!
# Extracting scripts

A combined file holds scripts under header lines such as `// Script 3: all of Sales`. A header
may be indented; its number is a run of decimal digits of any script, and a colon follows it.
Each script runs from the end of its header line to the next header, without the blanks around
it. What stands before the first header is dropped.

A script is written to a file named for its number, so of two scripts with the same number the
later one is what remains.
-/

set_option autoImplicit false

namespace Roster.Shell

open Text

/-- Whether a character is a space or a tab. -/
def isIndent (c : Char) : Bool := c == ' ' || c == '\t'

/-- The rest of a text that starts with another one. -/
def dropFront? : List Char → List Char → Option (List Char)
  | [], cs => some cs
  | _ :: _, [] => none
  | p :: ps, c :: cs => if p = c then dropFront? ps cs else none

/-- The number in a header line; none for any other line. -/
def headerNumber? (line : List Char) : Option (List Char) := do
  let rest ← dropFront? "//".toList (line.dropWhile isIndent)
  let rest ← dropFront? "Script".toList (rest.dropWhile isIndent)
  if !(rest.head?.any isIndent) then none
  else
    let rest := rest.dropWhile isIndent
    let number := rest.takeWhile isDecimalDigit
    let rest := (rest.dropWhile isDecimalDigit).dropWhile isIndent
    if !number.isEmpty && rest.head? == some ':' then some number else none

/-- The lines of a text; a line feed separates two. What has been read of the first line is
given with its last character first. -/
def splitLines (line : List Char) : List Char → List (List Char)
  | [] => [line.reverse]
  | c :: cs => if c = '\n' then line.reverse :: splitLines [] cs else splitLines (c :: line) cs

/-- The numbers and bodies of the scripts in lines, and the lines before the first header. -/
def sections : List (List Char) → List (List Char) × List (List Char × List (List Char))
  | [] => ([], [])
  | line :: lines =>
    let (before, scripts) := sections lines
    match headerNumber? line with
    | some number => ([], (number, before) :: scripts)
    | none => (line :: before, scripts)

/-- The text of lines that follow a header line. -/
def body (lines : List (List Char)) : String :=
  trim (String.ofList (lines.flatMap fun line => '\n' :: line))

/-- The numbers and texts of the scripts in a combined file, in their order. -/
def extractScripts (content : String) : List (String × String) :=
  (sections (splitLines [] content.toList)).2.map fun (number, lines) =>
    (String.ofList number, body lines)

/-- The name of the file for the script of a number, which is filled up to two characters. -/
def scriptFileName (number : String) : String :=
  let fill := String.ofList (List.replicate (2 - number.length) '0')
  s!"script_{fill}{number}.dsl"

/-- Writes scripts to files of a directory: the paths written or the fault of the first script
that could not be written, and the tree after that. -/
def writeScripts (f : Files) (directory : String) :
    List (String × String) → Except CommandError (List String) × Files
  | [] => (.ok [], f)
  | (number, script) :: rest =>
    let path := joinPath directory (scriptFileName number)
    match f.writeText path script with
    | .error cause => (.error (.file path cause), f)
    | .ok f =>
      let (paths, f) := writeScripts f directory rest
      (paths.map (path :: ·), f)

/-- Writes the scripts of a combined file to a directory, which is made if it is missing. -/
def writeExtracted (f : Files) (content directory : String) :
    Except CommandError (List String) × Files :=
  match f.createDirectories directory with
  | .error cause => (.error (.file directory cause), f)
  | .ok f => writeScripts f directory (extractScripts content)

end Roster.Shell
