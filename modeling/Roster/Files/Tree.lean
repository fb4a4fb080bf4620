import Roster.Files.Fault
import Roster.Text.Utf8

/-!
# File trees

The files a program can see, as a value: the working directory, and what there is under each
list of names on the way down from the root. Reading gives a result and writing gives a new
tree.

A path is walked name by name, from the root if it starts with a slash and from the working
directory otherwise. Every name but the last has to lead to a directory; `.` and empty names
stay where they are, `..` goes up and stays at the root, a name may have at most 255
bytes, and a path at most 4095.
-/

set_option autoImplicit false

namespace Roster

open Text

/-- What is found under a name. -/
inductive Entry where
  | directory
  | file (content : Bytes)
deriving DecidableEq

/-- A place in a tree: the names on the way from the root. -/
abbrev Location := List String

/-- The working directory, and what there is in the tree. The working directory and all above it
need not be listed. -/
structure Files where
  workingDirectory : Location
  entries : List (Location × Entry)
  /-- There is at most one thing at a location. -/
  nodup : (entries.map (·.1)).Nodup

/-- The names of a path; a slash separates two. -/
def pathNames (path : String) : List String :=
  (path.toList.splitOn '/').map String.ofList

/-- A path with a name at its end. -/
def joinPath (path name : String) : String :=
  if name.startsWith "/" || path.isEmpty then name
  else if path.endsWith "/" then path ++ name
  else path ++ "/" ++ name

namespace Files

/-- A tree with nothing but a working directory. -/
def empty (workingDirectory : Location) : Files :=
  { workingDirectory, entries := [], nodup := List.nodup_nil }

/-- What there is at a location. -/
def entry? (f : Files) (l : Location) : Option Entry :=
  if l.isPrefixOf f.workingDirectory then some .directory else f.entries.lookup l

/-- Goes from a location, which has to be a directory, to a name in it. -/
def enter (f : Files) (l : Location) (name : String) : Except FileFault Location :=
  match f.entry? l with
  | none => .error .notFound
  | some (.file _) => .error .notADirectory
  | some .directory =>
    if name = "" || name = "." then .ok l
    else if name = ".." then .ok l.dropLast
    else if 255 < name.utf8ByteSize then .error .nameTooLong
    else .ok (l ++ [name])

/-- Where the walk along a path starts. -/
def start (f : Files) (path : String) : Location :=
  if path.startsWith "/" then [] else f.workingDirectory

/-- Refuses a text that is no path at all. -/
def checkPath (path : String) : Except FileFault Unit :=
  if path.toList.contains '\x00' then .error .nulInName
  else if path.isEmpty then .error .notFound
  else if 4095 < path.utf8ByteSize then .error .nameTooLong
  else .ok ()

/-- The location a path leads to; there need not be anything. -/
def locate (f : Files) (path : String) : Except FileFault Location := do
  checkPath path
  (pathNames path).foldlM f.enter (f.start path)

/-- What there is at the end of a path. -/
def find (f : Files) (path : String) : Except FileFault Entry := do
  match f.entry? (← f.locate path) with
  | some e => return e
  | none => throw .notFound

/-- The content of a file. -/
def read (f : Files) (path : String) : Except FileFault Bytes := do
  match ← f.find path with
  | .file content => return content
  | .directory => throw .isADirectory

/-- The text of a file. -/
def readText (f : Files) (path : String) : Except FileFault String := do
  match Utf8.decode (← f.read path) with
  | .ok text => return text
  | .error _ => throw .invalidText

/-- Whether a path leads to a directory. -/
def isDirectory (f : Files) (path : String) : Bool :=
  match f.find path with
  | .ok .directory => true
  | _ => false

/-- Whether a path leads to a file. -/
def isFile (f : Files) (path : String) : Bool :=
  match f.find path with
  | .ok (.file _) => true
  | _ => false

/-- The names in a directory. -/
def namesIn (f : Files) (path : String) : Except FileFault (List String) := do
  let l ← f.locate path
  match f.entry? l with
  | none => throw .notFound
  | some (.file _) => throw .notADirectory
  | some .directory =>
    return f.entries.filterMap fun (place, _) =>
      if place.dropLast = l then place.getLast? else none

/-- The tree with an entry at a location. -/
def put (f : Files) (l : Location) (e : Entry) : Files where
  workingDirectory := f.workingDirectory
  entries := (l, e) :: f.entries.filter (·.1 != l)
  nodup := by
    rw [List.map_cons, List.nodup_cons]
    exact ⟨by simp, f.nodup.sublist (List.filter_sublist.map _)⟩

/-- The tree with an entry at the end of a path that says names only, and with the directories
above it. -/
def install (f : Files) (path : String) (e : Entry) : Files :=
  let names := f.start path ++ (pathNames path).filter fun name => name != "" && name != "."
  let above := ((List.range names.length).drop 1).map fun n => names.take n
  let f := above.foldl (fun f l => if (f.entry? l).isSome then f else f.put l .directory) f
  if (f.entry? names).isSome then f else f.put names e

/-- The tree after a text has been written to a file, which is made if there is none. -/
def writeText (f : Files) (path text : String) : Except FileFault Files := do
  let l ← f.locate path
  match f.entry? l with
  | some .directory => throw .isADirectory
  | _ => return f.put l (.file (Utf8.encode text))

/-- The directory part of a path and its last name, without slashes at the end. -/
def splitLast (path : String) : List String × String :=
  let names := ((pathNames path).reverse.dropWhile (· == "")).reverse
  (names.dropLast, names.getLastD "")

/-- Makes one directory. -/
def createDirectory (f : Files) (path : String) : Except FileFault Files := do
  checkPath path
  let (above, name) := splitLast path
  let directory ← above.foldlM f.enter (f.start path)
  let l ← f.enter directory name
  match f.entry? l with
  | some _ => throw .alreadyExists
  | none => return f.put l .directory

/-- The paths above a path, the nearest first. A path ends before each of its names, leaving
out names that say nothing: empty ones, and `.` except at the start. -/
def parents (path : String) : List String :=
  let isRoot := path.startsWith "/"
  let names := (pathNames path).filter (· != "")
  let names := names.take 1 ++ (names.drop 1).filter (· != ".")
  let text (names : List String) := (if isRoot then "/" else "") ++ "/".intercalate names
  (((List.range names.length).drop 1).map fun n => text (names.take n)).reverse

/-- Makes missing directories, the first of the list last. -/
def createMissing (f : Files) : List String → Except FileFault Files
  | [] => .ok f
  | path :: above =>
    match f.createDirectory path with
    | .ok f => .ok f
    | .error .notFound => do
      let f ← createMissing f above
      match f.createDirectory path with
      | .ok f => return f
      | .error e => if f.isDirectory path then return f else throw e
    | .error e => if f.isDirectory path then .ok f else .error e

/-- Makes a directory and those above it, as far as they are missing. -/
def createDirectories (f : Files) (path : String) : Except FileFault Files :=
  if path.isEmpty then .ok f else f.createMissing (path :: parents path)

end Files

end Roster
