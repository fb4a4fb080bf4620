import Roster.Query.Condition
import Roster.Query.Total

/-!
# Answers

A query is a list of conditions, a list of aggregates and at most one order. `Query.answer` runs
it against a table: the rows that meet all conditions, in the order that is asked for, and one
number per aggregate. Aggregates are taken over the rows that are kept, in the order of the
table.

Everything is looked up before a row is touched. A condition, the order or an aggregate that
does not fit the columns of the table fails the query whatever its rows are.
-/

set_option autoImplicit false

namespace Roster

/-- What a second table does to the query made for the first. -/
inductive ReloadPolicy where
  /-- The query stays and is asked of the new table. -/
  | keep
  /-- The query is dropped. -/
  | reset
deriving DecidableEq

/-- What the average of no values is. -/
inductive EmptyAverage where
  /-- Not a number. -/
  | nan
  /-- A fault. -/
  | fault
deriving DecidableEq

/-- The choices that are made once for a session. -/
structure Settings where
  reload : ReloadPolicy := .keep
  filterMode : FilterMode := .conjunctive
  emptyAverage : EmptyAverage := .nan
deriving DecidableEq

/-- An aggregate that is asked for. -/
structure Aggregate where
  function : AggregateFunction
  column : String
deriving DecidableEq

/-- The name an aggregate is reported under. -/
def Aggregate.name (a : Aggregate) : String := a.function.name ++ "_" ++ a.column

/-- The order that is asked for. -/
structure SortOrder where
  column : String
  direction : Direction
deriving DecidableEq

/-- What is asked of a table. -/
structure Query where
  conditions : List Condition := []
  aggregates : List Aggregate := []
  order : Option SortOrder := none
deriving DecidableEq

/-- The answer to a query. -/
structure Answer where
  columns : List String
  rowCount : Nat
  rows : List Row
  /-- Names and values of the aggregates in the order in which they were asked for. -/
  aggregates : List (String × Double)

namespace Answer

/-- The value of the aggregate of a name; the last one, if it was asked for more than once. -/
def aggregate? (a : Answer) (name : String) : Option Double :=
  (a.aggregates.reverse.find? (·.1 == name)).map (·.2)

/-- The cells of the column of a name. -/
def columnValues? (a : Answer) (name : String) : Option (List Cell) :=
  (a.columns.findIdx? (· == name)).map fun i => a.rows.map fun r => r.getD i .null

end Answer

/-- The place of a column that a query names. -/
def Table.lookUp (t : Table) (column : String) : Except QueryError Nat :=
  match t.columnIndex? column with
  | some i => .ok i
  | none => .error (.unknownColumn column)

namespace Aggregate

/-- The numbers in the column at a place, if it is one of numbers. -/
def numbers (a : Aggregate) (kept : Table) (index : Nat) : Except QueryError (List Double) :=
  match kept.columns[index]? with
  | none => .ok []
  | some c =>
    if c.values.kind = .numeric then .ok (c.values.toList.filterMap Cell.number?)
    else .error (.nonNumericAggregate a.function a.column c.values.kind)

/-- The value of an aggregate of the column at a place, over the rows of a table. -/
def value (a : Aggregate) (emptyAverage : EmptyAverage) (kept : Table) (index : Nat) :
    Except QueryError Double :=
  match a.function with
  | .count => .ok (Double.ofNat kept.rowCount)
  | .sum => (a.numbers kept index).map total
  | .average => do
    let xs ← a.numbers kept index
    if xs.isEmpty then
      match emptyAverage with
      | .nan => return Double.nan false
      | .fault => throw (.emptyAverage a.column)
    else return mean xs

end Aggregate

/-- The answer to a query. -/
def Query.answer (q : Query) (emptyAverage : EmptyAverage) (t : Table) :
    Except QueryError Answer := do
  -- All names are looked up before any row is read.
  let keep ← Condition.bindAll t q.conditions
  let order ← q.order.mapM fun o => return (← t.lookUp o.column, o.direction)
  let places ← q.aggregates.mapM fun a => t.lookUp a.column
  -- The kind of a column is checked with its values, aggregate by aggregate.
  let kept := t.filter keep
  let aggregates ← (q.aggregates.zip places).mapM fun (a, i) =>
    return (a.name, ← a.value emptyAverage kept i)
  let sorted := match order with
    | none => kept
    | some (i, direction) => kept.sort i direction
  return {
    columns := t.columnNames
    rowCount := sorted.rowCount
    rows := sorted.rows
    aggregates }

end Roster
