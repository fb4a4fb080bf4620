import Roster.Json.Printer
import Roster.Query.Answer

/-!
# Answers as JSON

An answer is an object of three fields: `record_count`, the number of rows; `filtered_data`, the
rows as objects with the columns as keys; and `aggregations`, the aggregates by name. An
aggregate that was asked for more than once is there once, with its last value.

A whole number below nine quadrillion is written without a point, any other finite number with
its shortest digits, and a number that is not finite as `null`.
-/

set_option autoImplicit false

namespace Roster

/-- The whole number that a finite double is. -/
def Double.whole? (x : Double) : Option Int :=
  let unit := twoTo (-x.exponent).toNat
  if x.isFinite && x.significand % unit == 0 then
    let n : Int := x.significand * twoTo x.exponent.toNat / unit
    some (if x.negative then -n else n)
  else none

namespace Report

/-- Whole numbers from here on are written as doubles. -/
def wholeLimit : Nat := 9 * tenTo 15

/-- A number in a document. -/
def number (x : Double) : Json :=
  match x.whole? with
  | some n => if n.natAbs < wholeLimit then .integer n else .double x
  | none => if x.isFinite then .double x else .null

/-- A cell in a document. -/
def cell : Cell → Json
  | .null => .null
  | .number n => number n
  | .text s => .string s

/-- A row in a document. -/
def row (columns : List String) (cells : Row) : Json :=
  Json.ofFields (columns.zip (cells.map cell))

/-- An answer as a document. -/
def document (a : Answer) : Json :=
  .object [
    ("record_count", .integer a.rowCount),
    ("filtered_data", .array (a.rows.map (row a.columns))),
    ("aggregations", Json.ofFields (a.aggregates.map fun (name, x) => (name, number x)))]

/-- An answer as a document without blanks. -/
def compact (a : Answer) : String := (document a).compact

/-- An answer as a document over several lines. -/
def pretty (a : Answer) : String := (document a).pretty

end Report

end Roster
