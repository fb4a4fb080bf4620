import Roster.Proofs.Query.Answer
import Roster.Proofs.Session.History

/-!
# `Roster.Proofs.Session.FilterModes`: what it changes to read `or` as `and`

A filter is read in one of two modes. In conjunctive mode every comparison is a condition of its
own, found by the walk over the leaves; in boolean mode the clause is one condition, found by
recursion over the tree. `map_inOrder_combine` says what the two have in common: the predicates of
the conditions are the comparisons of the clause, resolved from left to right. So both modes fail
to resolve a filter as its leftmost comparison that does not match (`combine_eq_error_iff`), and
both accumulate the same predicates (`inOrder_accumulated`), which fail to be bound alike.

They differ in how the predicates are joined. Conditions of conjunctive mode have no `or`
(`orFree_accumulated`), so a row meets them if it passes every predicate, and each is the test that
its comparison makes on its own (`exists_rowTests`). A row that passes every predicate meets any
condition made of them, which is why boolean mode keeps it too (`meets_boolean_of_conjunctive`).

`conjunctive_refines_boolean` is the main result. It compares the queries of two sessions that get
the same filters in the two modes: conjunctive mode keeps those of the rows of boolean mode that
pass every single comparison, and without an `or` it keeps all of them.
-/

set_option autoImplicit false

namespace Roster

/-! ### Resolving -/

/-- Whether the operator of a comparison takes its literal: `between` a range, and a relation
anything else. -/
def Comparison.matched (c : Comparison) : Bool :=
  match c.operator, c.literal with
  | .relation _, .number _ | .relation _, .text _ | .between, .range .. => true
  | _, _ => false

/-- A comparison that matches is resolved. -/
theorem Predicate.exists_resolve_iff {c : Comparison} :
    (∃ p, Predicate.resolve c = .ok p) ↔ c.matched = true := by
  obtain ⟨column, operator, literal⟩ := c
  cases operator <;> cases literal <;> simp [Comparison.matched, Predicate.resolve]

/-- A comparison that does not match fails for that. -/
theorem Predicate.resolve_eq_error_iff {c : Comparison} {cause : QueryError} :
    Predicate.resolve c = .error cause ↔ c.matched = false ∧ cause = .operatorMismatch c := by
  obtain ⟨column, operator, literal⟩ := c
  cases operator <;> cases literal <;> simp [Comparison.matched, Predicate.resolve, eq_comm]

namespace FilterMode

/-- Both modes resolve the comparisons of a clause one after the other. They differ in how many
conditions this makes, but not in the predicates of these. -/
theorem map_inOrder_combine (mode : FilterMode) (clause : Clause Comparison) :
    (mode.combine clause).map (List.flatMap Clause.inOrder)
      = clause.leaves.mapM Predicate.resolve := by
  cases mode with
  | conjunctive =>
    -- Each comparison is a clause of its own.
    have hleaves : (clause.leaves.map Clause.leaf).flatMap Clause.inOrder = clause.leaves := by
      rw [List.flatMap_map]
      exact List.flatMap_singleton' _
    rw [← congrArg (List.mapM Predicate.resolve) hleaves, ← Clause.map_inOrder_mapM_mapLeaves,
      List.mapM_map]
    rfl
  | boolean =>
    -- The whole clause is one condition, and resolving it keeps its shape.
    rw [Clause.leaves_eq_inOrder, ← Clause.map_inOrder_mapLeaves, combine]
    cases clause.mapLeaves Predicate.resolve with
    | error cause => rfl
    | ok c => exact congrArg Except.ok (List.flatMap_singleton _ c)

/-- A filter fails for its leftmost comparison that does not match, in either mode. -/
theorem combine_eq_error_iff {mode : FilterMode} {clause : Clause Comparison}
    {cause : QueryError} :
    mode.combine clause = .error cause
      ↔ ∃ before c after, clause.leaves = before ++ c :: after ∧
        (∀ b ∈ before, b.matched = true) ∧ c.matched = false ∧ cause = .operatorMismatch c := by
  rw [← map_eq_error_iff, map_inOrder_combine, mapM_eq_error_iff]
  simp only [Predicate.exists_resolve_iff, Predicate.resolve_eq_error_iff]

/-- A single comparison is a single condition in both modes. -/
theorem combine_leaf (mode : FilterMode) {c : Comparison} {p : Predicate}
    (h : Predicate.resolve c = .ok p) : mode.combine (.leaf c) = .ok [.leaf p] := by
  cases mode with
  | conjunctive =>
    simp [combine, Clause.leaves_eq_inOrder, Clause.inOrder, h, Except.map]
  | boolean =>
    rw [combine, Clause.mapLeaves, h]
    rfl

/-- The conditions that filters add, one after the other. A filter that fails adds none. -/
def accumulated (mode : FilterMode) (clauses : List (Clause Comparison)) : List Condition :=
  clauses.flatMap fun clause => (mode.combine clause).toOption.getD []

end FilterMode

/-- The comparisons of the filters that can be resolved, from left to right. -/
def resolvable (clauses : List (Clause Comparison)) : List Comparison :=
  clauses.flatMap fun clause => if clause.leaves.all Comparison.matched then clause.leaves else []

/-- The predicates that filters accumulate are their comparisons, resolved, in both modes. A filter
with a comparison that cannot be resolved adds nothing, so it is left out on both sides. -/
theorem inOrder_accumulated (mode : FilterMode) (clauses : List (Clause Comparison)) :
    (resolvable clauses).mapM Predicate.resolve
      = .ok ((mode.accumulated clauses).flatMap Clause.inOrder) := by
  induction clauses with
  | nil => rfl
  | cons clause clauses ih =>
    have hclause : (if clause.leaves.all Comparison.matched then clause.leaves else []).mapM
        Predicate.resolve
        = .ok (((mode.combine clause).toOption.getD []).flatMap Clause.inOrder) := by
      have hmap := mode.map_inOrder_combine clause
      have hmatched : (∃ ps, clause.leaves.mapM Predicate.resolve = .ok ps)
          ↔ clause.leaves.all Comparison.matched = true := by
        simp only [exists_mapM_eq_ok_iff, Predicate.exists_resolve_iff, List.all_eq_true]
      cases hcombine : mode.combine clause with
      | error cause =>
        -- The filter adds nothing, and nothing of it is counted as resolvable.
        rw [hcombine] at hmap
        rw [if_neg]
        · rfl
        · rw [← hmatched, ← hmap]
          rintro ⟨ps, hps⟩
          cases hps
      | ok conditions =>
        rw [hcombine] at hmap
        rw [if_pos (hmatched.1 ⟨_, hmap.symm⟩), ← hmap]
        rfl
    rw [resolvable, List.flatMap_cons, List.mapM_append, hclause, ← resolvable, ih,
      FilterMode.accumulated, FilterMode.accumulated, List.flatMap_cons, List.flatMap_append]
    rfl

/-- Both modes accumulate the same predicates. -/
theorem flatMap_inOrder_accumulated (clauses : List (Clause Comparison)) :
    (FilterMode.conjunctive.accumulated clauses).flatMap Clause.inOrder
      = (FilterMode.boolean.accumulated clauses).flatMap Clause.inOrder :=
  Except.ok.inj ((inOrder_accumulated .conjunctive clauses).symm.trans
    (inOrder_accumulated .boolean clauses))

/-- No `or` stands in the conditions that are accumulated in conjunctive mode, and in boolean mode
there is one only if a filter has it. -/
theorem FilterMode.orFree_accumulated {mode : FilterMode} {clauses : List (Clause Comparison)}
    (h : mode = .conjunctive ∨ ∀ clause ∈ clauses, clause.OrFree) :
    ∀ c ∈ mode.accumulated clauses, c.OrFree := by
  intro c haccumulated
  obtain ⟨clause, hclause, hc⟩ := List.mem_flatMap.1 haccumulated
  cases hcombine : mode.combine clause with
  | error cause =>
    rw [hcombine] at hc
    cases hc
  | ok conditions =>
    rw [hcombine] at hc
    change c ∈ conditions at hc
    cases mode with
    | conjunctive =>
      -- Each condition is the leaf of one comparison.
      have hleaves : List.Forall₂ (fun d a => d.OrFree ∧ (Predicate.resolve a).map .leaf = .ok d)
          conditions clause.leaves := by
        refine (mapM_eq_ok_iff.1 hcombine).flip.imp fun d a hd => ⟨?_, hd⟩
        obtain ⟨p, -, rfl⟩ := map_eq_ok_iff.1 hd
        trivial
      exact ((List.forall₂_and_left _ _).1 hleaves).1 c hc
    | boolean =>
      -- The one condition is the clause itself, with its comparisons resolved.
      obtain ⟨d, hd, hreturn⟩ := bind_eq_ok_iff.1 hcombine
      cases hreturn
      obtain rfl := List.mem_singleton.1 hc
      exact (h.resolve_left (by decide) clause hclause).mapLeaves hd

/-- What conjunctive mode keeps, boolean mode keeps: a row of conjunctive mode passes all
predicates. -/
theorem meets_boolean_of_conjunctive {clauses : List (Clause Comparison)} {names : List String}
    {row : Row} (h : ∀ c ∈ FilterMode.conjunctive.accumulated clauses, c.Meets names row) :
    ∀ c ∈ FilterMode.boolean.accumulated clauses, c.Meets names row := by
  rw [Condition.forall_meets_iff (FilterMode.orFree_accumulated (.inl rfl)),
    flatMap_inOrder_accumulated] at h
  exact Condition.meets_of_passes h

/-! ### Tests of single comparisons -/

/-- The test of rows that one comparison makes, when it is all there is to a filter. -/
def Comparison.rowTest (t : Table) (c : Comparison) : Except QueryError (Row → Bool) := do
  Condition.bindAll t (← FilterMode.boolean.combine (.leaf c))

/-- A comparison that is resolved to a predicate that fits tests the cell of its column. -/
theorem Comparison.rowTest_of_resolve {t : Table} {c : Comparison} {p : Predicate}
    (hp : Predicate.resolve c = .ok p) (hfits : p.Fits t) :
    c.rowTest t = .ok fun row => p.test.passes (row.cell t.columnNames p.column) := by
  rw [rowTest, FilterMode.combine_leaf .boolean hp]
  exact Condition.bindAll_leaf hfits

/-- What conjunctive mode accumulates keeps the rows that pass each comparison on its own. -/
theorem exists_rowTests {t : Table} {clauses : List (Clause Comparison)} {keep : Row → Bool}
    (h : Condition.bindAll t (FilterMode.conjunctive.accumulated clauses) = .ok keep) :
    ∃ tests, (resolvable clauses).mapM (Comparison.rowTest t) = .ok tests ∧
      keep = fun row => tests.all (· row) := by
  obtain ⟨hfits, rfl⟩ := Condition.bindAll_eq_ok_iff.1 h
  have hps := mapM_eq_ok_iff.1 (inOrder_accumulated .conjunctive clauses)
  refine ⟨((FilterMode.conjunctive.accumulated clauses).flatMap Clause.inOrder).map
    fun p row => p.test.passes (row.cell t.columnNames p.column), ?_, ?_⟩
  · rw [mapM_eq_ok_iff, List.forall₂_map_right_iff]
    -- A comparison tests a table on its own only if its predicate fits, so both are needed.
    have hboth := (List.forall₂_and_left _ _).2 ⟨List.forall_mem_flatMap.2 hfits, hps.flip⟩
    exact (hboth.imp fun p c hpc => Comparison.rowTest_of_resolve hpc.2 hpc.1).flip
  · funext row
    rw [Bool.eq_iff_iff, decide_eq_true_iff,
      Condition.forall_meets_iff (FilterMode.orFree_accumulated (.inl rfl)), List.all_map,
      List.all_eq_true]
    rfl

/-! ### Sessions -/

namespace Session

variable {settings : Settings} {source : TableSource} {t : Table} {q : Query}
  {clauses : List (Clause Comparison)} {mode : FilterMode}

/-- The session in which filters have been put to a table and a query, in a mode. -/
def filtered (settings : Settings) (source : TableSource) (t : Table) (q : Query)
    (clauses : List (Clause Comparison)) (mode : FilterMode) : Session :=
  afterAll { settings with filterMode := mode } ⟨some t, q⟩
    (clauses.map fun clause => ⟨source, .filter clause⟩)

/-- Filters add their conditions to the query, and those that fail add none. -/
theorem filtered_eq :
    filtered settings source t q clauses mode
      = ⟨some t, { q with conditions := q.conditions ++ mode.accumulated clauses }⟩ := by
  induction clauses generalizing q with
  | nil =>
    rw [FilterMode.accumulated, List.flatMap_nil, List.append_nil]
    rfl
  | cons clause clauses ih =>
    rw [filtered, List.map_cons, afterAll, List.foldl_cons, ← afterAll, Request.run, step_filter,
      FilterMode.accumulated, List.flatMap_cons, ← FilterMode.accumulated]
    cases hcombine : mode.combine clause with
    | error cause => exact ih
    | ok conditions =>
      rw [← List.append_assoc]
      exact ih

/-- What a session gets from filters in conjunctive mode, compared with what it gets from the same
filters in boolean mode.

- A filter fails in one mode exactly if it does in the other, for its leftmost comparison that
  does not match.
- The conditions fail to be bound in one mode exactly if they do in the other, and for the same.
- If they are bound, conjunctive mode keeps the rows that pass every single comparison, all of
  them rows that boolean mode keeps; and so it is with the rows of answers, in their order.
- If no `or` stands in any filter, both modes keep and answer the same. -/
theorem conjunctive_refines_boolean (settings : Settings) (source : TableSource) (t : Table)
    (order : Option SortOrder) (aggregates : List Aggregate)
    (clauses : List (Clause Comparison)) :
    let query := fun mode => (filtered settings source t { order, aggregates } clauses mode).query
    let keep := fun mode => Condition.bindAll t (query mode).conditions
    (∀ (clause : Clause Comparison) (cause : QueryError),
      (FilterMode.conjunctive.combine clause = .error cause
        ↔ FilterMode.boolean.combine clause = .error cause) ∧
      (FilterMode.boolean.combine clause = .error cause
        ↔ ∃ before c after, clause.leaves = before ++ c :: after ∧
          (∀ b ∈ before, b.matched = true) ∧ c.matched = false ∧
          cause = .operatorMismatch c)) ∧
    (∀ cause, keep .conjunctive = .error cause ↔ keep .boolean = .error cause) ∧
    (∀ keepC keepB, keep .conjunctive = .ok keepC → keep .boolean = .ok keepB →
      (t.filter keepC).rows.Sublist (t.filter keepB).rows ∧
      ∃ tests, (resolvable clauses).mapM (Comparison.rowTest t) = .ok tests ∧
        (t.filter keepC).rows = t.rows.filter fun row => tests.all (· row)) ∧
    (∀ (emptyAverage : EmptyAverage) (r r' : Answer),
      (query .conjunctive).answer emptyAverage t = .ok r →
      (query .boolean).answer emptyAverage t = .ok r' → r.rows.Sublist r'.rows) ∧
    ((∀ clause ∈ clauses, clause.OrFree) →
      keep .conjunctive = keep .boolean ∧
      ∀ emptyAverage : EmptyAverage,
        (query .conjunctive).answer emptyAverage t = (query .boolean).answer emptyAverage t) := by
  intro query keep
  -- The two queries differ in their conditions alone.
  have hquery : ∀ mode, query mode = ⟨mode.accumulated clauses, aggregates, order⟩ := by
    intro mode
    simp only [query, filtered_eq, List.nil_append]
  have hkeep : ∀ mode, keep mode = Condition.bindAll t (mode.accumulated clauses) := by
    intro mode
    simp only [keep, hquery]
  refine ⟨fun clause cause => ⟨?_, FilterMode.combine_eq_error_iff⟩, fun cause => ?_,
    fun keepC keepB hC hB => ⟨?_, ?_⟩, fun emptyAverage r r' hr hr' => ?_, fun horFree => ?_⟩
  · rw [FilterMode.combine_eq_error_iff, FilterMode.combine_eq_error_iff]
  · -- Both modes have the same comparisons in the same order, and those are what binding fails for.
    rw [hkeep, hkeep, Condition.bindAll_eq_error_iff, Condition.bindAll_eq_error_iff,
      flatMap_inOrder_accumulated]
  · rw [hkeep] at hC hB
    obtain ⟨-, rfl⟩ := Condition.bindAll_eq_ok_iff.1 hC
    obtain ⟨-, rfl⟩ := Condition.bindAll_eq_ok_iff.1 hB
    rw [Table.rows_filter, Table.rows_filter]
    refine List.monotone_filter_right _ fun row hrow => ?_
    rw [decide_eq_true_iff] at hrow ⊢
    -- A row that passes every comparison meets each clause, whatever joins them.
    exact meets_boolean_of_conjunctive hrow
  · rw [hkeep] at hC
    obtain ⟨tests, htests, rfl⟩ := exists_rowTests hC
    exact ⟨tests, htests, t.rows_filter _⟩
  · rw [hquery] at hr hr'
    obtain ⟨-, -, hanswer⟩ := Query.isAnswer_of_answer hr
    obtain ⟨-, -, hanswer'⟩ := Query.isAnswer_of_answer hr'
    exact hanswer.rows_sublist hanswer' rfl fun row => meets_boolean_of_conjunctive
  · have hsame : keep .conjunctive = keep .boolean := by
      rw [hkeep, hkeep]
      exact Condition.bindAll_eq_of_orFree (flatMap_inOrder_accumulated clauses)
        (FilterMode.orFree_accumulated (.inl rfl)) (FilterMode.orFree_accumulated (.inr horFree))
    refine ⟨hsame, fun emptyAverage => ?_⟩
    rw [hkeep, hkeep] at hsame
    rw [hquery, hquery, Query.answer, Query.answer, hsame]

end Session

end Roster
