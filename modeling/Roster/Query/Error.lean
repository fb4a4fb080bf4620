import Roster.Script.Statement
import Roster.Table.Error

/-!
# Query faults

Why a statement could not be carried out.
-/

set_option autoImplicit false

namespace Roster

/-- Why a statement failed. -/
inductive QueryError where
  /-- No table has been loaded. -/
  | noTable
  /-- The table has no column of this name. -/
  | unknownColumn (column : String)
  /-- The operator does not take the literal it is written with. -/
  | operatorMismatch (comparison : Comparison)
  /-- The column holds values of another kind than the literal. -/
  | columnMismatch (column : String) (kind : Kind) (literal : Literal)
  /-- The aggregate needs numbers. -/
  | nonNumericAggregate (function : AggregateFunction) (column : String) (kind : Kind)
  /-- There is nothing to take the average of. -/
  | emptyAverage (column : String)
  /-- The table could not be loaded. -/
  | load (path : String) (cause : TableError)
deriving DecidableEq

namespace QueryError

/-- The text shown for a fault. -/
def message : QueryError → String
  | noTable => "no table loaded; run `load \"<file>\";` first"
  | unknownColumn column => s!"unknown column \"{column}\""
  | operatorMismatch c =>
    s!"operator `{c.operator.symbol}` cannot take value {c.literal.display} "
      ++ s!"(column \"{c.column}\")"
  | columnMismatch column kind literal =>
    s!"cannot compare {kind.name} column \"{column}\" with {literal.display}"
  | nonNumericAggregate function column kind =>
    s!"cannot {function.name} {kind.name} column \"{column}\""
  | emptyAverage column => s!"average of column \"{column}\" is undefined: no values"
  | load path cause => s!"failed to load \"{path}\": {cause.message}"

/-- The class a fault is reported under. -/
def category : QueryError → String
  | noTable => "StateError"
  | unknownColumn _ => "ColumnError"
  | operatorMismatch _ | columnMismatch .. | nonNumericAggregate .. => "TypeError"
  | emptyAverage _ => "EmptyAggregateError"
  | load .. => "LoadError"

/-- The texts of the causes behind a fault, the nearest first. -/
def causes : QueryError → List String
  | load _ cause => cause.message :: cause.causes
  | _ => []

end QueryError

end Roster
