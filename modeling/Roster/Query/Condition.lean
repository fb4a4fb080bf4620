import Roster.Query.Error
import Roster.Table.Basic

/-!
# Conditions

What a filter statement makes of its clause. Each comparison is resolved on its own: its
operator has to fit its literal, `between` a range and every other operator a single value. The
result is a `Test` of one column (`Predicate`). How the tests of one statement hang together is
for the `FilterMode` to say.

Before a query is run its conditions are bound to the table: every column is looked up by name,
and its kind has to be that of the test.
-/

set_option autoImplicit false

namespace Roster

/-- A test of one cell. -/
inductive Test where
  | number (relation : Relation) (value : Double)
  | text (relation : Relation) (value : String)
  /-- From `min` to `max`, both included. -/
  | between (min max : Double)
deriving DecidableEq

/-- Whether a relation holds of two things in a given order; `none` stands for things that
cannot be compared, of which only `!=` holds. -/
def Relation.holds (r : Relation) (order : Option Ordering) : Bool :=
  match r with
  | greater => order == some .gt
  | less => order == some .lt
  | greaterEqual => order == some .gt || order == some .eq
  | lessEqual => order == some .lt || order == some .eq
  | equal => order == some .eq
  | notEqual => order != some .eq

namespace Test

/-- The literal a test was written with. -/
def literal : Test → Literal
  | number _ n => .number n
  | text _ s => .text s
  | between min max => .range min max

/-- The operator a test was written with. -/
def operator : Test → Operator
  | number r _ => .relation r
  | text r _ => .relation r
  | between .. => .between

/-- The kind of the cells a test is about. -/
def kind : Test → Kind
  | number .. | between .. => .numeric
  | text .. => .text

/-- Whether a cell passes. A missing cell passes `!=` and nothing else, and a cell of the other
kind passes nothing. -/
def passes : Test → Cell → Bool
  | number r n, .number x => r.holds (x.compare? n)
  | text r t, .text s => r.holds (some (compareText s t))
  | between min max, .number x => min.le x && x.le max
  | number .notEqual _, .null => true
  | text .notEqual _, .null => true
  | _, _ => false

end Test

/-- A test of the column of a name. -/
structure Predicate where
  column : String
  test : Test
deriving DecidableEq

/-- The predicate of a comparison, if its operator fits its literal. -/
def Predicate.resolve (c : Comparison) : Except QueryError Predicate :=
  match c.operator, c.literal with
  | .relation r, .number n => .ok ⟨c.column, .number r n⟩
  | .relation r, .text s => .ok ⟨c.column, .text r s⟩
  | .between, .range min max => .ok ⟨c.column, .between min max⟩
  | _, _ => .error (.operatorMismatch c)

/-- A condition on the rows of a table. -/
abbrev Condition := Clause Predicate

/-- What one filter statement contributes to the conditions of a query, all of which have to
hold. -/
inductive FilterMode where
  /-- Every comparison is a condition of its own, whatever joins them: `or` counts as `and`. -/
  | conjunctive
  /-- The clause is one condition, joined as it is written. -/
  | boolean
deriving DecidableEq

/-- The conditions of a clause, or the fault of its leftmost comparison that has one. -/
def FilterMode.combine (mode : FilterMode) (clause : Clause Comparison) :
    Except QueryError (List Condition) :=
  match mode with
  | conjunctive => clause.leaves.mapM fun c => (Predicate.resolve c).map .leaf
  | boolean => do return [← clause.mapLeaves Predicate.resolve]

/-- A test of the cell at a place of a row. -/
structure BoundTest where
  index : Nat
  test : Test
deriving DecidableEq

/-- Whether a row passes. -/
def BoundTest.passes (row : Row) (b : BoundTest) : Bool :=
  b.test.passes (row.getD b.index .null)

/-- A predicate tied to the columns of a table. -/
def Predicate.bind (t : Table) (p : Predicate) : Except QueryError BoundTest :=
  match t.columnIndex? p.column with
  | none => .error (.unknownColumn p.column)
  | some index =>
    let kind := (t.columns[index]?).elim .numeric fun c => c.values.kind
    if p.test.kind = kind then .ok ⟨index, p.test⟩
    else .error (.columnMismatch p.column kind p.test.literal)

/-- A condition tied to the columns of a table. -/
def Condition.bind (t : Table) (c : Condition) : Except QueryError (Clause BoundTest) :=
  c.mapLeaves (Predicate.bind t)

/-- Conditions tied to the columns of a table, as a test of rows: all of them have to hold. -/
def Condition.bindAll (t : Table) (conditions : List Condition) :
    Except QueryError (Row → Bool) := do
  let bound ← conditions.mapM (Condition.bind t)
  return fun row => bound.all fun c => c.holds (BoundTest.passes row)

end Roster
