import Roster.Proofs.Query.Comparing
import Roster.Proofs.Session.FilterModes
import Roster.Proofs.Session.Runs

/-!
# `Roster.Proofs.Session.Operators`: what the operators of filters have to do with each other

A filter has seven operators, and each is run by itself: a comparison is resolved, tied to its
column, and asked of every row. Readers of a script expect them to hang together: `<`, `==` and `>`
to divide the rows, `>=` to be `>` or `==`, `!=` to be what `==` leaves, and `between` to be `>=`
and `<=` at once. `operators_consistent` says that they do, on every table in which all numbers are
numbers.

The six relations look at one and the same comparison of a cell with the value
(`Comparison.exists_rowTest_relation`), so nothing is left to do but to go through its outcomes,
which `Relation.consistent_holds` does. `between` needs no outcomes, as it is two relations cell for
cell. As a filter statement it adds one condition where the other two add two, and a print sees only
how the conditions are tied to the table (`Query.answer_congr_conditions`), where all of them have
to hold (`Condition.bindAll_append`).
-/

set_option autoImplicit false

namespace Roster

variable {t : Table} {name : String} {kind : Kind} {v : Literal}

/-! ### Tests of rows -/

namespace Comparison

/-- A comparison by a relation with a value of the kind of its column tests the rows of the table:
the relation has to hold of how the cell compares with the value. -/
theorem exists_rowTest_relation (hkind : t.kind? name = some kind) (hv : v.IsValue kind)
    (r : Relation) :
    ∃ keep, rowTest t ⟨name, .relation r, v⟩ = .ok keep ∧
      ∀ row ∈ t.rows, keep row = r.holds ((row.cell t.columnNames name).against v) := by
  obtain ⟨test, hresolve, rfl, hpasses⟩ := exists_test_of_isValue hv name r
  refine ⟨_, rowTest_of_resolve hresolve hkind, ?_⟩
  intro row hrow
  exact hpasses _ (Table.kind?_cell_of_mem_rows hrow hkind)

/-- All relations look at one comparison. -/
theorem exists_rowTests_relation (hkind : t.kind? name = some kind) (hv : v.IsValue kind) :
    ∃ keep : Relation → Row → Bool,
      (∀ r, rowTest t ⟨name, .relation r, v⟩ = .ok (keep r)) ∧
      ∀ row ∈ t.rows, (fun r => keep r row)
        = fun r => r.holds ((row.cell t.columnNames name).against v) := by
  choose keep hkeep hholds using exists_rowTest_relation hkind hv
  refine ⟨keep, hkeep, ?_⟩
  intro row hrow
  funext r
  exact hholds r row hrow

/-- A range tests the rows of the table as its two limits do. -/
theorem exists_rowTest_between (hkind : t.kind? name = some .numeric) (a b : Double) :
    ∃ least most between : Row → Bool,
      rowTest t ⟨name, .relation .greaterEqual, .number a⟩ = .ok least ∧
      rowTest t ⟨name, .relation .lessEqual, .number b⟩ = .ok most ∧
      rowTest t ⟨name, .between, .range a b⟩ = .ok between ∧
      (∀ row, between row = (least row && most row)) ∧
      ∀ row, between row = (Test.between a b).passes (row.cell t.columnNames name) := by
  have hleast : Predicate.Fits t ⟨name, .number .greaterEqual a⟩ := hkind
  have hmost : Predicate.Fits t ⟨name, .number .lessEqual b⟩ := hkind
  have hbetween : Predicate.Fits t ⟨name, .between a b⟩ := hkind
  refine ⟨_, _, _, rowTest_of_resolve rfl hleast, rowTest_of_resolve rfl hmost,
    rowTest_of_resolve rfl hbetween, ?_, fun row => rfl⟩
  intro row
  exact Test.passes_between a b _

end Comparison

/-! ### Conditions of a query -/

/-- A query only asks how its conditions are tied to the table. -/
theorem Query.answer_congr_conditions {conditions conditions' : List Condition}
    (h : Condition.bindAll t conditions = Condition.bindAll t conditions') (q : Query)
    (emptyAverage : EmptyAverage) :
    ({ q with conditions } : Query).answer emptyAverage t
      = ({ q with conditions := conditions' } : Query).answer emptyAverage t := by
  rw [answer, answer, h]

/-- As the last condition a range is tied to the table as its two limits are. -/
theorem Condition.bindAll_between (hkind : t.kind? name = some .numeric)
    (conditions : List Condition) (a b : Double) :
    bindAll t (conditions ++ [.leaf ⟨name, .between a b⟩])
      = bindAll t (conditions ++
          [.leaf ⟨name, .number .greaterEqual a⟩, .leaf ⟨name, .number .lessEqual b⟩]) := by
  have hleast : Predicate.Fits t ⟨name, .number .greaterEqual a⟩ := hkind
  have hmost : Predicate.Fits t ⟨name, .number .lessEqual b⟩ := hkind
  have hbetween : Predicate.Fits t ⟨name, .between a b⟩ := hkind
  have hlimits : bindAll t [.leaf ⟨name, .between a b⟩]
      = bindAll t
          ([.leaf ⟨name, .number .greaterEqual a⟩] ++ [.leaf ⟨name, .number .lessEqual b⟩]) := by
    rw [bindAll_append, bindAll_leaf hleast, bindAll_leaf hmost, bindAll_leaf hbetween]
    refine congrArg Except.ok (funext fun row => ?_)
    exact Test.passes_between a b _
  show _ = bindAll t (conditions ++
    ([.leaf ⟨name, .number .greaterEqual a⟩] ++ [.leaf ⟨name, .number .lessEqual b⟩]))
  rw [bindAll_append conditions, bindAll_append conditions, hlimits]

/-! ### Sessions -/

namespace Session

variable {source : TableSource} {settings : Settings} {s : Session}

/-- Single comparisons as filters, and a print behind them: the query is asked with the predicates
that they are resolved to. -/
theorem outcome_runFrom_filters_print (source : TableSource) (settings : Settings)
    (htable : s.table = some t) (cs : List Comparison) (ps : List Predicate)
    (h : List.Forall₂ (fun c p => Predicate.resolve c = .ok p) cs ps) (i : Nat) :
    (s.runFrom source settings i
        (cs.map (fun c => .filter (.leaf c)) ++ [.print])).outcome.mapError StatementError.cause
      = (({ s.query with conditions := s.query.conditions ++ ps.map .leaf } : Query).answer
          settings.emptyAverage t).map fun r => [r] := by
  induction h generalizing s i with
  | nil =>
    rw [List.map_nil, List.nil_append, List.map_nil, List.append_nil, runFrom, step_print, htable]
    dsimp only
    cases s.query.answer settings.emptyAverage t <;> rfl
  | @cons c p cs ps hresolve _ ih =>
    -- A filter adds its predicate at the end, and the others come behind it.
    have hstep : s.step source settings (.filter (.leaf c)) = (.ok none,
        { s with query := { s.query with conditions := s.query.conditions ++ [.leaf p] } }) := by
      rw [step_filter, htable, settings.filterMode.combine_leaf hresolve]
    have hrest := @ih
      { s with query := { s.query with conditions := s.query.conditions ++ [.leaf p] } }
      htable (i + 1)
    rw [List.append_assoc] at hrest
    rw [List.map_cons, List.cons_append, runFrom_cons hstep]
    exact hrest

/-- A range as a filter gives the print behind it what its two limits give as two filters, and if
the print fails it fails for the same. -/
theorem outcome_run_between_print (htable : s.table = some t)
    (hkind : t.kind? name = some .numeric) (a b : Double) :
    (s.run source settings
        [.filter (.leaf ⟨name, .between, .range a b⟩), .print]).outcome.mapError
        StatementError.cause
      = (s.run source settings
          [.filter (.leaf ⟨name, .relation .greaterEqual, .number a⟩),
            .filter (.leaf ⟨name, .relation .lessEqual, .number b⟩), .print]).outcome.mapError
        StatementError.cause := by
  have hrange := outcome_runFrom_filters_print source settings htable
    [⟨name, .between, .range a b⟩] [⟨name, .between a b⟩] (.cons rfl .nil) 0
  have hlimits := outcome_runFrom_filters_print source settings htable
    [⟨name, .relation .greaterEqual, .number a⟩, ⟨name, .relation .lessEqual, .number b⟩]
    [⟨name, .number .greaterEqual a⟩, ⟨name, .number .lessEqual b⟩]
    (.cons rfl (.cons rfl .nil)) 0
  have hanswer := Query.answer_congr_conditions
    (Condition.bindAll_between hkind s.query.conditions a b) s.query settings.emptyAverage
  exact (hrange.trans (congrArg (Except.map fun r => [r]) hanswer)).trans hlimits.symm

/-- The operators of filters are consistent on every table in which all numbers are numbers, for
every column and every value of its kind.

- Each relation tests the rows of the table, and a row that has a cell passes by exactly one of `<`,
  `==` and `>`. It passes by `>=` if it does by `>` or `==`, by `<=` if it does by `<` or `==`, and
  by `!=` if it does not by `==`. A row without a cell passes by `!=` and by nothing else.
- `between` tests the rows of the table as its two limits do by `>=` and `<=`. No row passes if the
  limits are in the wrong order, and none without a cell.
- As a filter before a print `between` gives what its two limits give as two filters, in every
  session that has the table. -/
theorem operators_consistent (t : Table) (hnan : t.NaNFree) (name : String) (kind : Kind)
    (hkind : t.kind? name = some kind) :
    (∀ v : Literal, v.IsValue kind → ∃ keep : Relation → Row → Bool,
      (∀ r, Comparison.rowTest t ⟨name, .relation r, v⟩ = .ok (keep r)) ∧
      ∀ row ∈ t.rows,
        Relation.Consistent (fun r => keep r row) (row.cell t.columnNames name).isNull) ∧
    (kind = .numeric → ∀ a b : Double, ∃ least most between : Row → Bool,
      Comparison.rowTest t ⟨name, .relation .greaterEqual, .number a⟩ = .ok least ∧
      Comparison.rowTest t ⟨name, .relation .lessEqual, .number b⟩ = .ok most ∧
      Comparison.rowTest t ⟨name, .between, .range a b⟩ = .ok between ∧
      (∀ row, between row = (least row && most row)) ∧
      (a.compare? b = some .gt → ∀ row, between row = false) ∧
      (∀ row, (row.cell t.columnNames name).isNull = true → between row = false) ∧
      ∀ (source : TableSource) (settings : Settings) (s : Session), s.table = some t →
        (s.run source settings
            [.filter (.leaf ⟨name, .between, .range a b⟩), .print]).outcome.mapError
            StatementError.cause
          = (s.run source settings
              [.filter (.leaf ⟨name, .relation .greaterEqual, .number a⟩),
                .filter (.leaf ⟨name, .relation .lessEqual, .number b⟩),
                .print]).outcome.mapError StatementError.cause) := by
  constructor
  · intro v hv
    obtain ⟨keep, hkeep, hholds⟩ := Comparison.exists_rowTests_relation hkind hv
    refine ⟨keep, hkeep, ?_⟩
    intro row hrow
    -- All relations read the same comparison of cell and literal, so it decides them together.
    have hconsistent := Relation.consistent_holds ((row.cell t.columnNames name).against v)
    rw [hholds row hrow, ← Cell.isNone_against hv (hnan.isValue_cell hkind hrow)]
    exact hconsistent
  · rintro rfl a b
    obtain ⟨least, most, between, hleast, hmost, hbetween, hlimits, hpasses⟩ :=
      Comparison.exists_rowTest_between hkind a b
    refine ⟨least, most, between, hleast, hmost, hbetween, hlimits, ?_, ?_, ?_⟩
    · -- No number is at least the greater limit and at most the less one.
      intro hgt row
      rw [hpasses]
      cases row.cell t.columnNames name with
      | number x => exact Double.le_and_le_of_gt hgt x
      | _ => rfl
    · intro row hnull
      rw [hpasses]
      cases hcell : row.cell t.columnNames name with
      | null => rfl
      | _ =>
        rw [hcell] at hnull
        cases hnull
    · intro source settings s htable
      exact outcome_run_between_print htable hkind a b

/-- The two zeros are equal, and no number is at least two and at most zero. -/
theorem operators_consistent_zeros :
    let two : Double := Double.ofNat 2
    ∃ t, Table.ofRecords ["n"] [["-0"], [""], ["2"]] = .ok t ∧ t.NaNFree ∧
      t.kind? "n" = some .numeric ∧ (Literal.number .zero).IsValue .numeric ∧
      (∃ keep : Relation → Row → Bool,
        (∀ r, Comparison.rowTest t ⟨"n", .relation r, .number .zero⟩ = .ok (keep r)) ∧
        (∀ row ∈ t.rows,
          Relation.Consistent (fun r => keep r row) (row.cell t.columnNames "n").isNull) ∧
        t.rows.map (keep .equal) = [true, false, false]) ∧
      two.compare? .zero = some .gt ∧
      ∃ between : Row → Bool,
        Comparison.rowTest t ⟨"n", .between, .range two .zero⟩ = .ok between ∧
        ∀ row, between row = false := by
  intro two
  obtain ⟨t, ht⟩ : ∃ t, Table.ofRecords ["n"] [["-0"], [""], ["2"]] = .ok t := ⟨_, rfl⟩
  have hnan : t.NaNFree := Table.nanFree_of_ofRecords ht
  have hkind : t.kind? "n" = some .numeric := by
    cases ht
    rfl
  have hzero : (Literal.number .zero).IsValue .numeric := .number rfl
  have hgt : two.compare? .zero = some .gt := by decide
  obtain ⟨hrelations, hbetween⟩ := operators_consistent t hnan "n" .numeric hkind
  obtain ⟨keep, hkeep, hconsistent⟩ := hrelations (.number .zero) hzero
  obtain ⟨-, -, between, -, -, htest, -, hnone, -⟩ := hbetween rfl two .zero
  refine ⟨t, ht, hnan, hkind, hzero, ⟨keep, hkeep, hconsistent, ?_⟩, hgt, between, htest,
    hnone hgt⟩
  -- The test is the one that the comparison is bound to, so the rows can be tried.
  have hequal := hkeep .equal
  cases ht
  rw [← Except.ok.inj hequal]
  rfl

end Session

end Roster
