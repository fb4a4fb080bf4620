import Roster.Report.Document

/-!
# The text report

A report shows a title, the number of rows, the aggregates, and the first rows as one-line
documents, as many as the preview allows. When the preview leaves rows out, a line says how
many.
-/

set_option autoImplicit false

namespace Roster.Report

/-- The number of rows shown when nothing else is asked for. -/
def defaultPreview : Nat := 5

/-- A text whose first character, if it is a small letter of ASCII, is a capital. -/
def capitalized : List Char → List Char
  | [] => []
  | c :: cs => c.toUpper :: cs

/-- The line of an aggregate, from the name it is reported under. What stands before the first
underscore is the function, the rest is the column. A count is written as it is, any other
number with two places. -/
def aggregateLine (name : String) (value : Double) : String :=
  let function := name.toList.takeWhile (· != '_')
  let column := (name.toList.dropWhile (· != '_')).drop 1
  let number := if function = "count".toList then value.positional else value.twoPlaces
  String.ofList (capitalized function) ++ " of " ++ String.ofList column ++ ": " ++ number

/-- The line that frames a report. -/
def rule : String := String.ofList (List.replicate 50 '=')

/-- The lines of rows, numbered from one more than `above`. -/
def rowLines (columns : List String) (above : Nat) : List Row → String
  | [] => ""
  | cells :: rest =>
    s!"{above + 1}. {(row columns cells).compact}\n" ++ rowLines columns (above + 1) rest

/-- The section of the aggregates; empty, if there are none. -/
def aggregateSection (aggregates : List (String × Double)) : String :=
  if aggregates.isEmpty then ""
  else
    "\nAggregations:\n"
      ++ String.join (aggregates.map fun (name, x) => aggregateLine name x ++ "\n")

/-- The section of the rows; empty, if there are none to show. -/
def rowSection (a : Answer) (preview : Nat) : String :=
  if 0 < a.rowCount ∧ 0 < preview then
    s!"\nFirst {preview} records:\n" ++ rowLines a.columns 0 (a.rows.take preview)
  else ""

/-- The line that says how many rows are not shown; empty, if none. -/
def remainder (rowCount preview : Nat) : String :=
  if preview < rowCount then s!"... and {rowCount - preview} more records.\n" else ""

/-- An answer as a text report. -/
def render (a : Answer) (title : String) (preview : Nat) : String :=
  s!"\n{rule}\nRunning: {title}\n{rule}\n"
    ++ s!"Records found: {a.rowCount}\n"
    ++ aggregateSection a.aggregates
    ++ rowSection a preview
    ++ remainder a.rowCount preview
    ++ rule ++ "\n"

end Roster.Report
