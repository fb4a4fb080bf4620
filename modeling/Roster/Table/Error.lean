import Roster.Table.Csv

/-!
# Table faults

Why no table could be had: its file, its records or its columns are at fault.
-/

set_option autoImplicit false

namespace Roster

/-- Why there is no table. -/
inductive TableError where
  /-- No table has this name. -/
  | notFound (path : String)
  /-- The file could not be opened. -/
  | unopened (path : String) (cause : FileFault)
  /-- The file is not comma-separated records. -/
  | malformed (path : String) (fault : Csv.Fault)
  /-- A row, counted from one, has another number of fields than there are columns. -/
  | ragged (row found expected : Nat)
  /-- Two columns share a name. -/
  | duplicateColumn (name : String)
  /-- A column has both numbers and texts. -/
  | mixedColumn (name : String)
deriving DecidableEq

namespace TableError

/-- The text shown for a fault. -/
def message : TableError → String
  | notFound path => s!"table not found: \"{path}\""
  | unopened path cause => s!"I/O error reading \"{path}\": {cause.message}"
  | malformed path fault => s!"malformed CSV in \"{path}\": {fault.message}"
  | ragged row found expected => s!"row {row} has {found} fields, expected {expected}"
  | duplicateColumn name => s!"duplicate column name \"{name}\""
  | mixedColumn name => s!"column \"{name}\" mixes numbers and text"

/-- The texts of the causes behind a fault, the nearest first. -/
def causes : TableError → List String
  | unopened _ cause => [cause.message]
  | malformed _ fault => [fault.message]
  | _ => []

end TableError

end Roster
