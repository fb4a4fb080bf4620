/-!
# Clauses

Trees of `and` and `or` over leaves of any kind. A clause of comparisons is what a filter
statement says; once its leaves have been checked, and once they have been tied to the columns
of a table, it is a clause of other leaves.

`Clause.leaves` lists the leaves from left to right. It keeps the subtrees that are still to be
visited in a list, so that the length of a chain, which nests to the left, is no depth of calls;
`Clause.inOrder` is the plain recursion that says what the list is.
-/

set_option autoImplicit false

namespace Roster

/-- The words that join clauses. -/
inductive Connective where
  | and | or
deriving DecidableEq

/-- A tree of `and` and `or`. -/
inductive Clause (α : Type) where
  | leaf (a : α)
  | and (left right : Clause α)
  | or (left right : Clause α)
deriving DecidableEq

namespace Clause

variable {α β ε : Type}

/-- Two clauses joined by a connective. -/
def join (connective : Connective) (left right : Clause α) : Clause α :=
  match connective with
  | .and => .and left right
  | .or => .or left right

/-- The number of nodes. -/
def size : Clause α → Nat
  | leaf _ => 1
  | and left right => left.size + right.size + 1
  | or left right => left.size + right.size + 1

/-- The number of nodes of the clauses of a list. -/
def sizes : List (Clause α) → Nat
  | [] => 0
  | c :: rest => c.size + sizes rest

/-- The leaves of the clauses of a list, one clause after the other. -/
def leavesOf : List (Clause α) → List α
  | [] => []
  | leaf a :: rest => a :: leavesOf rest
  | and left right :: rest => leavesOf (left :: right :: rest)
  | or left right :: rest => leavesOf (left :: right :: rest)
termination_by clauses => sizes clauses
decreasing_by
  all_goals
    simp only [sizes, size]
    omega

/-- The leaves of a clause from left to right. -/
def leaves (c : Clause α) : List α := leavesOf [c]

/-- The leaves of the left branch, then those of the right branch. -/
def inOrder : Clause α → List α
  | leaf a => [a]
  | and left right => left.inOrder ++ right.inOrder
  | or left right => left.inOrder ++ right.inOrder

/-- The clause with every leaf replaced, or the error of the leftmost leaf that has none. -/
def mapLeaves (f : α → Except ε β) : Clause α → Except ε (Clause β)
  | leaf a => (f a).map .leaf
  | and left right => do return .and (← left.mapLeaves f) (← right.mapLeaves f)
  | or left right => do return .or (← left.mapLeaves f) (← right.mapLeaves f)

/-- Whether a clause holds, given which leaves do. -/
def holds (p : α → Bool) : Clause α → Bool
  | leaf a => p a
  | and left right => left.holds p && right.holds p
  | or left right => left.holds p || right.holds p

end Clause

end Roster
