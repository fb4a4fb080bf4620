import Roster.Proofs.Query.Misfit
import Roster.Proofs.Table.Sorting

/-!
# `Roster.Proofs.Query.Rearranged`: a query of a table that is sorted before

The same conditions and aggregates are asked of a table and of the table with its rows in another
order, with whatever order of the answer (`Query.Rearranged`). The two are answered together or fail
for the same (`Rearranged.answer_failsAlike`): only an average of nothing looks at the rows before
it fails, and what is kept of them is the same up to its order. The aggregates of the answers may
differ, as doubles do not add up to the same in every order.

`answer_of_sorted` says of queries what `Table.filter_sort` says of tables: a query that orders its
rows has the rows that the same query has of the table sorted before, with its order or without it.
What is kept of a sorted table is sorted, and there is one stable order of the rows that are kept.
Both together are `filter_sort_commute`.
-/

set_option autoImplicit false

namespace Roster

/-- Rows that have been put in order are in order. -/
theorem Arranged.self {names : List String} {order : Option SortOrder} {xs ys : List Row}
    (h : Arranged names order xs ys) : Arranged names order ys ys := by
  cases order with
  | none => rfl
  | some o => exact stablyOrdered_self (StablyOrdered.sorted h)

namespace Query

variable {q q' : Query} {t t' : Table} {emptyAverage : EmptyAverage} {r r' : Answer}

/-- The same conditions and aggregates are asked of two tables of one schema that have the same rows
in some order. The orders of the answers may differ, but one is found if the other is. -/
structure Rearranged (q q' : Query) (t t' : Table) : Prop where
  conditions : q.conditions = q'.conditions
  aggregates : q.aggregates = q'.aggregates
  order : FailsAlike (q.order.mapM fun o => do return (← t.lookUp o.column, o.direction))
    (q'.order.mapM fun o => do return (← t'.lookUp o.column, o.direction))
  schema : t.schema = t'.schema
  rows : t.rows.Perm t'.rows

namespace Rearranged

/-- The same rows are kept, in some order. -/
theorem kept_perm (h : q.Rearranged q' t t') : (q.kept t).Perm (q'.kept t') := by
  rw [kept, kept, h.conditions, Table.columnNames_congr h.schema]
  exact h.rows.filter _

/-- An average is one of nothing in both tables or in neither. -/
theorem faults_iff (h : q.Rearranged q' t t') (a : Aggregate) :
    a.Faults emptyAverage t.columnNames (q.kept t)
      ↔ a.Faults emptyAverage t'.columnNames (q'.kept t') := by
  have hnumbers : (a.numbersIn t.columnNames (q.kept t)).Perm
      (a.numbersIn t'.columnNames (q'.kept t')) := by
    rw [Aggregate.numbersIn, Aggregate.numbersIn, Table.columnNames_congr h.schema]
    exact h.kept_perm.filterMap _
  have hnone : a.numbersIn t.columnNames (q.kept t) = []
      ↔ a.numbersIn t'.columnNames (q'.kept t') = [] := by
    rw [← List.length_eq_zero_iff, hnumbers.length_eq, List.length_eq_zero_iff]
  rw [Aggregate.Faults, Aggregate.Faults, hnone]

/-- What a query looks up is found in both tables or fails alike, since names and kinds are the
same. -/
theorem lookUps_failsAlike (h : q.Rearranged q' t t') :
    FailsAlike (q.lookUps t) (q'.lookUps t') := by
  have hlookUp : t.lookUp = t'.lookUp := by
    funext column
    rw [Table.lookUp, Table.lookUp, Table.columnIndex?_congr h.schema]
  have hconditions : Condition.bindAll t q.conditions = Condition.bindAll t' q'.conditions := by
    rw [h.conditions, Condition.bindAll_congr h.schema]
  rw [lookUps, lookUps, hconditions, h.aggregates]
  refine (FailsAlike.refl _).bind ?_
  intro _ _ _ _
  refine h.order.bind ?_
  intro _ _ _ _
  rw [hlookUp]
  exact (FailsAlike.refl _).bind fun _ _ _ _ => .of_ok _ _

/-- The two queries are answered together, or they fail for the same. -/
theorem answer_failsAlike (h : q.Rearranged q' t t') (emptyAverage : EmptyAverage) :
    FailsAlike (q.answer emptyAverage t) (q'.answer emptyAverage t') := by
  refine answer_failsAlike_of_aggregates h.aggregates h.lookUps_failsAlike ?_ ?_
  · intro a _
    exact Aggregate.fits_congr h.schema a
  · intro a _
    exact h.faults_iff a

/-- The answers have the same columns and as many rows. -/
theorem columns_eq (h : q.Rearranged q' t t') (hr : q.IsAnswer t r) (hr' : q'.IsAnswer t' r') :
    r.columns = r'.columns ∧ r.rowCount = r'.rowCount := by
  constructor
  · rw [hr.columns, hr'.columns, Table.columnNames_congr h.schema]
  · rw [hr.rowCount, hr'.rowCount, hr.length_rows, hr'.length_rows, h.kept_perm.length_eq]

end Rearranged

/-! ### Tables sorted before -/

section
variable {o : SortOrder} {i : Nat}

/-- A query that orders its rows asks the same of the table sorted before, whether it orders them
again or not. -/
theorem rearranged_sort (horder : q.order = some o) (hplace : t.columnIndex? o.column = some i)
    {order : Option SortOrder} (hagain : order = none ∨ order = some o) :
    q.Rearranged { q with order } t (t.sort i o.direction) where
  conditions := rfl
  aggregates := rfl
  order := by
    have hfound : OrderFound t (some o) (some (i, o.direction)) := ⟨i, hplace, rfl⟩
    have hfound' : OrderFound (t.sort i o.direction) (some o) (some (i, o.direction)) :=
      ⟨i, by rwa [Table.columnIndex?_congr (t.schema_sort i o.direction)], rfl⟩
    rw [horder, mapM_lookUp_eq_ok_iff.2 hfound]
    rcases hagain with rfl | rfl
    · exact .of_ok _ _
    · show FailsAlike _ ((some o).mapM _)
      rw [mapM_lookUp_eq_ok_iff.2 hfound']
      exact .of_ok _ _
  schema := (t.schema_sort i o.direction).symm
  rows := (t.stablyOrdered_sort_place i o.direction).perm.symm

/-- What is kept of a sorted table is what is kept of the table, in order. -/
theorem arranged_kept_sort (horder : q.order = some o)
    (hplace : t.columnIndex? o.column = some i) (order : Option SortOrder) :
    Arranged t.columnNames q.order (q.kept t)
      (Query.kept { q with order } (t.sort i o.direction)) := by
  have hsorted : Arranged t.columnNames q.order t.rows (t.sort i o.direction).rows := by
    rw [horder]
    exact Table.stablyOrdered_sort o.direction hplace
  rw [kept, kept, Table.columnNames_congr (t.schema_sort i o.direction)]
  exact hsorted.filter _

/-- The query of a table sorted before has the same rows, whether it orders them again or not. -/
theorem rows_eq_of_sorted (horder : q.order = some o) (hplace : t.columnIndex? o.column = some i)
    {order : Option SortOrder} (hagain : order = none ∨ order = some o) (hr : q.IsAnswer t r)
    (hr' : Query.IsAnswer { q with order } (t.sort i o.direction) r') : r'.rows = r.rows := by
  have hsorted := arranged_kept_sort horder hplace order
  have hrows : r'.rows = Query.kept { q with order } (t.sort i o.direction) := by
    have harranged := hr'.rows
    rw [Table.columnNames_congr (t.schema_sort i o.direction)] at harranged
    rcases hagain with rfl | rfl
    · exact harranged
    · -- The rows are in order already.
      rw [horder] at hsorted
      exact harranged.unique hsorted.self
  rw [hrows]
  exact hsorted.unique hr.rows

/-- The rows that are printed for a query with an order are those of the same query of the table
sorted before, with the order or without it. One of the queries fails if the other does, and for the
same. -/
theorem answer_of_sorted (emptyAverage : EmptyAverage) (horder : q.order = some o)
    (hplace : t.columnIndex? o.column = some i) {order : Option SortOrder}
    (hagain : order = none ∨ order = some o) :
    (∃ cause, q.answer emptyAverage t = .error cause ∧
      Query.answer { q with order } emptyAverage (t.sort i o.direction) = .error cause) ∨
    ∃ r r', q.answer emptyAverage t = .ok r ∧
      Query.answer { q with order } emptyAverage (t.sort i o.direction) = .ok r' ∧
      r'.rows = r.rows ∧ r'.columns = r.columns ∧ r'.rowCount = r.rowCount := by
  have hrearranged := rearranged_sort horder hplace hagain
  have halike := hrearranged.answer_failsAlike emptyAverage
  cases hr : q.answer emptyAverage t with
  | error cause => exact .inl ⟨cause, rfl, (halike cause).1 hr⟩
  | ok r =>
    obtain ⟨r', hr'⟩ := halike.exists_ok_iff.1 ⟨r, hr⟩
    obtain ⟨-, -, hanswer⟩ := isAnswer_of_answer hr
    obtain ⟨-, -, hanswer'⟩ := isAnswer_of_answer hr'
    obtain ⟨hcolumns, hcount⟩ := hrearranged.columns_eq hanswer hanswer'
    exact .inr ⟨r, r', rfl, hr', rows_eq_of_sorted horder hplace hagain hanswer hanswer',
      hcolumns.symm, hcount.symm⟩

end

/-- Filtering and sorting can be done in either order. A filtered table is sorted as the sorted
table is filtered. So a query with an order may be asked of the table sorted before, with its order
or without it: the answers have the same rows and columns, or both queries fail for the same. -/
theorem filter_sort_commute :
    (∀ (t : Table) (keep : Row → Bool) (i : Nat) (direction : Direction),
      (t.filter keep).sort i direction = (t.sort i direction).filter keep) ∧
    ∀ (q : Query) (t : Table) (emptyAverage : EmptyAverage) (o : SortOrder) (i : Nat),
      q.order = some o → t.columnIndex? o.column = some i →
      ∀ order, order = none ∨ order = some o →
        (∃ cause, q.answer emptyAverage t = .error cause ∧
          Query.answer { q with order } emptyAverage (t.sort i o.direction) = .error cause) ∨
        ∃ r r', q.answer emptyAverage t = .ok r ∧
          Query.answer { q with order } emptyAverage (t.sort i o.direction) = .ok r' ∧
          r'.rows = r.rows ∧ r'.columns = r.columns ∧ r'.rowCount = r.rowCount := by
  refine ⟨Table.filter_sort, ?_⟩
  intro q t emptyAverage o i horder hplace order hagain
  exact answer_of_sorted emptyAverage horder hplace hagain

/-- Ties and a missing cell among the rows that are kept, and a sum. The sorted table is asked
without an order. -/
theorem filter_sort_commute_ties :
    let o : SortOrder := ⟨"n", .descending⟩
    let q : Query := {
      conditions := [.leaf ⟨"s", .text .notEqual "c"⟩]
      aggregates := [⟨.sum, "n"⟩]
      order := some o }
    let rows : List Row := [[.text "a", .null], [.text "b", .number .zero],
      [.text "c", .number (Double.ofNat 2)], [.text "d", .number (Double.ofNat 1)],
      [.text "e", .number .zero]]
    ∃ t, Table.ofCells ["s", "n"] rows = .ok t ∧ t.columnIndex? "n" = some 1 ∧
      ((∃ cause, q.answer .fault t = .error cause ∧
        Query.answer { q with order := none } .fault (t.sort 1 .descending) = .error cause) ∨
      ∃ r r', q.answer .fault t = .ok r ∧
        Query.answer { q with order := none } .fault (t.sort 1 .descending) = .ok r' ∧
        r'.rows = r.rows ∧ r'.columns = r.columns ∧ r'.rowCount = r.rowCount) := by
  intro o q rows
  obtain ⟨t, ht⟩ : ∃ t, Table.ofCells ["s", "n"] rows = .ok t := ⟨_, rfl⟩
  have hplace : t.columnIndex? "n" = some 1 := by
    cases ht
    rfl
  exact ⟨t, ht, hplace, filter_sort_commute.2 q t .fault o 1 rfl hplace none (.inl rfl)⟩

end Query

end Roster
