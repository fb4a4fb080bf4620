import Roster.Files.Tree
import Roster.Session.Basic

/-!
# Table sources

Where the tables of a session come from: the comma-separated files of a tree, or tables that are
at hand under their names.
-/

set_option autoImplicit false

namespace Roster.TableSource

/-- The path a load statement means, given the directory that relative paths start from. -/
def resolve (base : Option String) (path : String) : String :=
  match base with
  | some directory => joinPath directory path
  | none => path

/-- The tables of the files of a tree. A directory can be opened but not read. -/
def ofFiles (f : Files) (base : Option String) : TableSource := fun path =>
  match f.find (resolve base path) with
  | .error cause => .error (.unopened path cause)
  | .ok .directory => .error (.malformed path (.unreadable .isADirectory))
  | .ok (.file content) =>
    match Csv.read content with
    | .error fault => .error (.malformed path fault)
    | .ok (names, records) => Table.ofRecords names records

/-- Tables that are at hand; of two with the same name the later one counts. -/
def ofTables (tables : List (String × Table)) : TableSource := fun path =>
  match tables.reverse.lookup path with
  | some t => .ok t
  | none => .error (.notFound path)

end Roster.TableSource
