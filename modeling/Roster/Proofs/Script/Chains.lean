import Roster.Proofs.Clause
import Roster.Proofs.Script.Grammar

/-!
# `Roster.Proofs.Script.Chains`: a chain read from left to right

A reader takes the comparisons of a chain one by one and keeps a `Chain`: what the last `or`
closed, and the conjunction that is still open. `ChainTree.chain` is what it keeps at the end.

* `clause_chain`: the clause of that is the clause the grammar gives, with the chain cut at
  every `or` beforehand. The induction is on the links and carries the closed part and the open
  conjunction along; the pieces still to come are those of `cutLinks`.
* `layered_clause`: in it `and` binds tighter than `or`, and both group to the left.
* `leaves_clause`: its leaves are the comparisons in the order of the source.
-/

set_option autoImplicit false

namespace Roster.Grammar

/-- A chain that has been read, and one more link. -/
def Link.addTo (c : Chain) (l : Link) : Chain := (Joint.after c l.connective).extend l.comparison

/-- What is kept of a chain when all of it has been read. -/
def ChainTree.chain (t : ChainTree) : Chain :=
  t.links.foldl Link.addTo (Joint.start.extend t.first)

/-- The conjunction of a piece between two `or`. -/
def conjunction (piece : Series Comparison) : Clause Comparison := (piece.map .leaf).joined .and

/-! ### Cutting and reading agree -/

/-- Reading links closes the open conjunction with the comparisons up to the first `or`, and adds
the pieces behind it. -/
theorem clause_foldl_addTo (links : List Link) (c : Chain) :
    (links.foldl Link.addTo c).clause
      = ((cutLinks links).2.map conjunction).foldl (Clause.join .or)
          (Chain.mk c.closed
            (((cutLinks links).1.map Clause.leaf).foldl (Clause.join .and) c.group)).clause := by
  induction links generalizing c with
  | nil => rfl
  | cons l links ih =>
    obtain ⟨k, repeated, comparison⟩ := l
    rw [List.foldl_cons, ih]
    cases k with
    | and => rfl
    | or =>
      -- The `or` closes what there is; the piece behind it starts from its own comparison.
      simp only [cutLinks, List.map_nil, List.foldl_nil, List.map_cons, List.foldl_cons]
      rfl

/-- The clause of a chain that has been read is the clause of its derivation. -/
theorem clause_chain (t : ChainTree) : t.chain.clause = t.clause := by
  rw [ChainTree.chain, clause_foldl_addTo]
  rfl

/-! ### The layers -/

/-- Leaves added on the right of a conjunction leave it one. -/
theorem isConjunction_foldl {c : Clause Comparison} (h : c.IsConjunction)
    (comparisons : List Comparison) :
    ((comparisons.map Clause.leaf).foldl (Clause.join .and) c).IsConjunction := by
  induction comparisons generalizing c with
  | nil => exact h
  | cons x comparisons ih => exact ih (.and x h)

/-- A piece is a conjunction. -/
theorem isConjunction_conjunction (piece : Series Comparison) :
    (conjunction piece).IsConjunction :=
  isConjunction_foldl (.leaf piece.head) piece.tail

/-- Conjunctions added on the right of a disjunction leave it one. -/
theorem isDisjunction_foldl {c : Clause Comparison} (h : c.IsDisjunction)
    (pieces : List (Series Comparison)) :
    ((pieces.map conjunction).foldl (Clause.join .or) c).IsDisjunction := by
  induction pieces generalizing c with
  | nil => exact h
  | cons piece pieces ih => exact ih (.or h (isConjunction_conjunction piece))

/-- In the clause of a chain `and` binds tighter than `or`, and both group to the left. -/
theorem layered_clause (t : ChainTree) : t.clause.Layered :=
  Clause.layered_of_isDisjunction
    (isDisjunction_foldl (.single (isConjunction_conjunction t.cut.head)) t.cut.tail)

/-! ### The leaves -/

/-- Clauses joined from left to right have their leaves one clause after the other. -/
theorem inOrder_foldl_join (k : Connective) (c : Clause Comparison)
    (clauses : List (Clause Comparison)) :
    (clauses.foldl (Clause.join k) c).inOrder = c.inOrder ++ clauses.flatMap Clause.inOrder := by
  induction clauses generalizing c with
  | nil => simp
  | cons d clauses ih =>
    rw [List.foldl_cons, ih, Clause.inOrder_join, List.flatMap_cons, List.append_assoc]

/-- The leaves of a piece are its comparisons. -/
theorem inOrder_conjunction (piece : Series Comparison) :
    (conjunction piece).inOrder = piece.toList := by
  have hleaves : ∀ cs : List Comparison,
      (cs.map Clause.leaf).flatMap Clause.inOrder = cs := by
    intro cs
    induction cs with
    | nil => rfl
    | cons c cs ih => rw [List.map_cons, List.flatMap_cons, ih]; rfl
  show ((piece.tail.map Clause.leaf).foldl (Clause.join .and) (.leaf piece.head)).inOrder = _
  rw [inOrder_foldl_join, hleaves]
  rfl

/-- Cutting loses no comparison and keeps their order. -/
theorem cutLinks_comparisons (links : List Link) :
    (cutLinks links).1 ++ (cutLinks links).2.flatMap Series.toList
      = links.map Link.comparison := by
  induction links with
  | nil => rfl
  | cons l links ih =>
    obtain ⟨k, repeated, comparison⟩ := l
    cases k with
    | and => exact congrArg (comparison :: ·) ih
    | or => exact congrArg (comparison :: ·) ih

/-- The leaves of the clause of a chain are its comparisons in the order of the source. -/
theorem leaves_clause (t : ChainTree) : t.clause.leaves = t.comparisons := by
  have hpieces : (t.cut.tail.map conjunction).flatMap Clause.inOrder
      = t.cut.tail.flatMap Series.toList := by
    rw [List.flatMap_map]
    exact congrArg (List.flatMap · t.cut.tail) (funext inOrder_conjunction)
  show ((t.cut.tail.map conjunction).foldl (Clause.join .or)
    (conjunction t.cut.head)).leaves = _
  rw [Clause.leaves_eq_inOrder, inOrder_foldl_join, inOrder_conjunction, hpieces]
  exact congrArg (t.first :: ·) (cutLinks_comparisons t.links)

end Roster.Grammar
