import Roster.Clause
import Roster.Number.Positional
import Roster.Script.Token
import Roster.Table.Cell

/-!
# Statements

What a script says: five kinds of statements, and for `filter` a clause of comparisons, joined
by `and` and `or`. `Comparison.text` is a comparison in the concrete syntax.
-/

set_option autoImplicit false

namespace Roster

/-- The right-hand side of a comparison. -/
inductive Literal where
  | number (value : Double)
  | text (value : String)
  /-- All numbers from `min` to `max`. -/
  | range (min max : Double)
deriving DecidableEq

/-- A literal in the concrete syntax; a text is put between quotes as it is. -/
def Literal.display : Literal → String
  | number n => n.positional
  | text s => s!"\"{s}\""
  | range min max => s!"{min.positional} and {max.positional}"

/-- The operator of a comparison. -/
inductive Operator where
  | relation (sign : Relation)
  | between
deriving DecidableEq

/-- An operator as it is written. -/
def Operator.symbol : Operator → String
  | relation r => r.symbol
  | between => "between"

/-- A test of one column against a literal, as it is written. -/
structure Comparison where
  column : String
  operator : Operator
  literal : Literal
deriving DecidableEq

/-- A comparison in the concrete syntax. -/
def Comparison.text (c : Comparison) : String :=
  s!"column \"{c.column}\" {c.operator.symbol} {c.literal.display}"

/-- The functions of an aggregate. -/
inductive AggregateFunction where
  | count | sum | average
deriving DecidableEq

/-- The word for an aggregate function. -/
def AggregateFunction.name : AggregateFunction → String
  | count => "count"
  | sum => "sum"
  | average => "average"

/-- One statement of a script. -/
inductive Statement where
  /-- Make the table of a file the loaded one. -/
  | load (path : String)
  /-- Keep only rows for which a clause holds. -/
  | filter (clause : Clause Comparison)
  /-- Ask for an aggregate of a column. -/
  | aggregate (function : AggregateFunction) (column : String)
  /-- Order the rows by a column. -/
  | sort (column : String) (direction : Direction)
  /-- Answer the query. -/
  | print
deriving DecidableEq

/-- The word a statement starts with. -/
def Statement.keyword : Statement → Keyword
  | load _ => .load
  | filter _ => .filter
  | aggregate _ _ => .aggregate
  | sort _ _ => .sort
  | print => .print

/-- The statements of a script in the order they are written. -/
abbrev Program := List Statement

/-- The paths a program loads tables from. -/
def Program.loadPaths (p : Program) : List String :=
  p.filterMap fun
    | .load path => some path
    | _ => none

end Roster
