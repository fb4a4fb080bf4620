import Roster.Proofs.Query.Binding
import Roster.Proofs.Table.Ordering
import Roster.Query.Answer

/-!
# `Roster.Proofs.Query.Answer`: a query is answered with the rows and numbers it asks for

`Query.answer` ties the query to places, picks rows by their places, and picks them once more to
sort them. `Query.IsAnswer` says what the answer is without any place: the rows that meet every
condition, in the stable order of the column that is asked for, and for each aggregate its name
and its value over the rows that are kept, as they stand in the table.

`answer_eq_ok_iff` is the main result. A query has an answer exactly if all that it names is
there and of the right kind (`Query.Fits`) and, where that is a fault, no average is one of
nothing; and then its answer is the one that `Query.IsAnswer` allows. `Query.lookUps` is the part
of the query that looks for what it names, and `Query.entries` takes the aggregates
(`answer_eq_bind`). What is looked up in the table is read off the table that the conditions
leave, which has the same columns at the same places (`OrderFound.filter`, `entries_eq_ok_iff`).
-/

set_option autoImplicit false

namespace Roster

/-! ### What is asked for -/

namespace Aggregate

/-- Whether an aggregate can be taken of a table: counting takes any column, and what calculates
takes numbers. -/
def Fits (a : Aggregate) (t : Table) : Prop :=
  ∃ kind, t.kind? a.column = some kind ∧ (a.function = .count ∨ kind = .numeric)

/-- The numbers in the column of an aggregate from top to bottom. -/
def numbersIn (a : Aggregate) (names : List String) (rows : List Row) : List Double :=
  rows.filterMap fun row => (row.cell names a.column).number?

/-- The value of an aggregate over some rows. -/
def valueOver (a : Aggregate) (names : List String) (rows : List Row) : Double :=
  match a.function with
  | .count => Double.ofNat rows.length
  | .sum => total (a.numbersIn names rows)
  | .average =>
    match a.numbersIn names rows with
    | [] => Double.nan false
    | x :: xs => mean (x :: xs)

/-- The name of an aggregate and its value over some rows. -/
def entry (a : Aggregate) (names : List String) (rows : List Row) : String × Double :=
  (a.function.name ++ "_" ++ a.column, a.valueOver names rows)

/-- Whether an aggregate over some rows is one that has to fail: an average of nothing, where
that is a fault. -/
def Faults (a : Aggregate) (emptyAverage : EmptyAverage) (names : List String)
    (rows : List Row) : Prop :=
  emptyAverage = .fault ∧ a.function = .average ∧ a.numbersIn names rows = []

end Aggregate

/-- Whether some rows are others in the order that is asked for: as they are, if none is. -/
def Arranged (names : List String) (order : Option SortOrder) (unordered rows : List Row) :
    Prop :=
  match order with
  | none => rows = unordered
  | some o => StablyOrdered (Row.precedes names o.column o.direction) unordered rows

namespace Query

/-- The rows of a table that meet every condition of a query, from top to bottom. -/
def kept (q : Query) (t : Table) : List Row :=
  t.rows.filter fun row => ∀ c ∈ q.conditions, c.Meets t.columnNames row

/-- Whether all that a query names is in a table, and of the right kind. -/
structure Fits (q : Query) (t : Table) : Prop where
  conditions : ∀ c ∈ q.conditions, ∀ p ∈ c.leaves, p.Fits t
  order : ∀ o ∈ q.order, o.column ∈ t.columnNames
  aggregates : ∀ a ∈ q.aggregates, a.Fits t

/-- What the answer to a query is. -/
structure IsAnswer (q : Query) (t : Table) (r : Answer) : Prop where
  columns : r.columns = t.columnNames
  rows : Arranged t.columnNames q.order (q.kept t) r.rows
  length_rows : r.rows.length = (q.kept t).length
  rowCount : r.rowCount = r.rows.length
  /-- One entry for each aggregate, in the order in which they are asked for. -/
  aggregates : r.aggregates = q.aggregates.map fun a => a.entry t.columnNames (q.kept t)

end Query

/-! ### One aggregate -/

/-- A column that is looked up is found at its place. -/
theorem Table.lookUp_eq_ok_iff {t : Table} {column : String} {i : Nat} :
    t.lookUp column = .ok i ↔ t.columnIndex? column = some i := by
  rw [Table.lookUp]
  cases t.columnIndex? column <;> simp

/-- Looking up a column fails only where the table has none of the name. -/
theorem Table.lookUp_eq_error_iff {t : Table} {column : String} {cause : QueryError} :
    t.lookUp column = .error cause
      ↔ t.kind? column = none ∧ cause = .unknownColumn column := by
  rw [Table.lookUp, Table.kind?_eq_none_iff]
  cases t.columnIndex? column <;> simp [eq_comm]

namespace Aggregate

variable {a : Aggregate} {t : Table} {i : Nat}

/-- The numbers at the place of a column are those in the column of its name. -/
theorem numbers_eq_ok_iff (h : t.columnIndex? a.column = some i) {xs : List Double} :
    a.numbers t i = .ok xs
      ↔ t.kind? a.column = some .numeric ∧ xs = a.numbersIn t.columnNames t.rows := by
  obtain ⟨c, hc, -⟩ := Table.exists_column_of_columnIndex? h
  have hkind := Table.kind?_eq_some h hc
  have hnumbers : c.values.toList.filterMap Cell.number? = a.numbersIn t.columnNames t.rows := by
    rw [Table.toList_column hc, List.filterMap_map]
    refine List.filterMap_congr fun row _ => ?_
    rw [Table.columnIndex?_eq] at h
    rw [Function.comp_apply, Row.getD_eq_cell h]
  rw [numbers, hc]
  simp only [hkind, Option.some.injEq, ← hnumbers]
  split <;> simp_all [eq_comm]

/-- An aggregate has a value exactly if it fits the table and is not one that has to fail, and
the value is that over the rows of the table. -/
theorem value_eq_ok_iff (h : t.columnIndex? a.column = some i) {emptyAverage : EmptyAverage}
    {v : Double} :
    a.value emptyAverage t i = .ok v
      ↔ a.Fits t ∧ ¬a.Faults emptyAverage t.columnNames t.rows ∧
        v = a.valueOver t.columnNames t.rows := by
  obtain ⟨c, hc, -⟩ := Table.exists_column_of_columnIndex? h
  have hkind := Table.kind?_eq_some h hc
  unfold value Fits Faults valueOver
  cases a.function with
  | count =>
    rw [Table.length_rows]
    constructor
    · intro hv
      cases hv
      exact ⟨⟨_, hkind, .inl rfl⟩, by simp, rfl⟩
    · rintro ⟨-, -, rfl⟩
      rfl
  | sum =>
    rw [map_eq_ok_iff]
    constructor
    · rintro ⟨xs, hxs, rfl⟩
      obtain ⟨hnumeric, rfl⟩ := (numbers_eq_ok_iff h).1 hxs
      exact ⟨⟨_, hnumeric, .inr rfl⟩, by simp, rfl⟩
    · rintro ⟨⟨kind, hnumeric, hcount | rfl⟩, -, rfl⟩
      · cases hcount
      · exact ⟨_, (numbers_eq_ok_iff h).2 ⟨hnumeric, rfl⟩, rfl⟩
  | average =>
    rw [bind_eq_ok_iff]
    constructor
    · rintro ⟨xs, hxs, hv⟩
      obtain ⟨hnumeric, rfl⟩ := (numbers_eq_ok_iff h).1 hxs
      refine ⟨⟨_, hnumeric, .inr rfl⟩, ?_⟩
      -- Only the average of nothing looks at what it is to be.
      cases hnone : a.numbersIn t.columnNames t.rows with
      | nil =>
        rw [hnone] at hv
        cases emptyAverage with
        | nan =>
          cases hv
          exact ⟨by simp, rfl⟩
        | fault => cases hv
      | cons x xs =>
        rw [hnone] at hv
        cases hv
        exact ⟨by simp, rfl⟩
    · rintro ⟨⟨kind, hnumeric, hcount | rfl⟩, hfault, rfl⟩
      · cases hcount
      · refine ⟨_, (numbers_eq_ok_iff h).2 ⟨hnumeric, rfl⟩, ?_⟩
        cases hnone : a.numbersIn t.columnNames t.rows with
        | nil =>
          cases emptyAverage with
          | nan => rfl
          | fault => exact absurd ⟨rfl, rfl, hnone⟩ hfault
        | cons x xs => rfl

/-- All aggregates have values exactly if each of them has, and there is one entry for each of
them in their order. -/
theorem mapM_value_eq_ok_iff {emptyAverage : EmptyAverage} {requests : List Aggregate}
    {places : List Nat}
    (h : List.Forall₂ (fun a i => t.columnIndex? a.column = some i) requests places)
    {entries : List (String × Double)} :
    ((requests.zip places).mapM fun (a, i) => do
        return (a.name, ← a.value emptyAverage t i)) = .ok entries
      ↔ (∀ a ∈ requests, a.Fits t ∧ ¬a.Faults emptyAverage t.columnNames t.rows) ∧
        entries = requests.map fun a => a.entry t.columnNames t.rows := by
  induction h generalizing entries with
  | nil =>
    constructor
    · intro hnil
      cases hnil
      exact ⟨by simp, rfl⟩
    · rintro ⟨-, rfl⟩
      rfl
  | @cons a i requests places hplace _ ih =>
    -- One entry is the name and the value of the first aggregate, the rest are the others'.
    rw [List.zip_cons_cons, List.mapM_cons, bind_eq_ok_iff, List.forall_mem_cons]
    constructor
    · rintro ⟨first, hfirst, hrest⟩
      obtain ⟨v, hv, hentry⟩ := bind_eq_ok_iff.1 hfirst
      obtain ⟨hfits, hfault, rfl⟩ := (value_eq_ok_iff hplace).1 hv
      obtain ⟨rest, hrest, hentries⟩ := bind_eq_ok_iff.1 hrest
      obtain ⟨hall, rfl⟩ := ih.1 hrest
      cases hentry
      cases hentries
      exact ⟨⟨⟨hfits, hfault⟩, hall⟩, rfl⟩
    · rintro ⟨⟨⟨hfits, hfault⟩, hall⟩, rfl⟩
      have hv := (value_eq_ok_iff hplace).2 ⟨hfits, hfault, rfl⟩
      exact ⟨_, bind_eq_ok_iff.2 ⟨_, hv, rfl⟩, bind_eq_ok_iff.2 ⟨_, ih.2 ⟨hall, rfl⟩, rfl⟩⟩

end Aggregate

/-! ### The order -/

section
variable {order : Option SortOrder} {found : Option (Nat × Direction)} {t : Table}

/-- Whether the order that is asked for is the one that is found, the place of its column. -/
def OrderFound (t : Table) : Option SortOrder → Option (Nat × Direction) → Prop
  | none, found => found = none
  | some o, found => ∃ i, t.columnIndex? o.column = some i ∧ found = some (i, o.direction)

/-- An order is found where its column is. -/
theorem mapM_lookUp_eq_ok_iff :
    (order.mapM fun o => do return (← t.lookUp o.column, o.direction)) = .ok found
      ↔ OrderFound t order found := by
  cases order with
  | none =>
    constructor
    · intro h
      cases h
      rfl
    · rintro rfl
      rfl
  | some o =>
    show ((do return (← t.lookUp o.column, o.direction)) : Except QueryError _).map some = _ ↔ _
    rw [map_eq_ok_iff]
    constructor
    · rintro ⟨p, hp, rfl⟩
      obtain ⟨i, hi, hp⟩ := bind_eq_ok_iff.1 hp
      cases hp
      exact ⟨i, Table.lookUp_eq_ok_iff.1 hi, rfl⟩
    · rintro ⟨i, hi, rfl⟩
      exact ⟨_, bind_eq_ok_iff.2 ⟨i, Table.lookUp_eq_ok_iff.2 hi, rfl⟩, rfl⟩

/-- What is left of a table has its columns at the same places. -/
theorem OrderFound.filter (h : OrderFound t order found) (keep : Row → Bool) :
    OrderFound (t.filter keep) order found := by
  cases order with
  | none => exact h
  | some o =>
    obtain ⟨i, hi, hfound⟩ := h
    exact ⟨i, by rwa [Table.columnIndex?_filter], hfound⟩

/-- The column of an order that is found is one of the table. -/
theorem OrderFound.mem_columnNames (h : OrderFound t order found) :
    ∀ o ∈ order, o.column ∈ t.columnNames := by
  rintro o rfl
  obtain ⟨i, hi, -⟩ := h
  exact Table.exists_columnIndex?_iff.1 ⟨i, hi⟩

/-- An order by one of the columns is found. -/
theorem exists_found (h : ∀ o ∈ order, o.column ∈ t.columnNames) :
    ∃ found, OrderFound t order found := by
  cases order with
  | none => exact ⟨none, rfl⟩
  | some o =>
    obtain ⟨i, hi⟩ := Table.exists_columnIndex?_iff.2 (h o rfl)
    exact ⟨some (i, o.direction), i, hi, rfl⟩

/-- A table sorted at the place that is found has its rows arranged. -/
theorem arranged_sort (h : OrderFound t order found) :
    Arranged t.columnNames order t.rows
      (match found with
        | none => t
        | some (i, direction) => t.sort i direction).rows := by
  cases order with
  | none =>
    cases h
    rfl
  | some o =>
    obtain ⟨i, hi, rfl⟩ := h
    exact Table.stablyOrdered_sort o.direction hi

variable {names : List String} {xs ys zs : List Row}

/-- Rows can be arranged in one way only. -/
theorem Arranged.unique (hys : Arranged names order xs ys) (hzs : Arranged names order xs zs) :
    ys = zs := by
  cases order with
  | none => exact hys.trans hzs.symm
  | some o => exact StablyOrdered.unique (fun _ => Cell.precedes_self _ _) hys hzs

/-- What is left of arranged rows is arranged. -/
theorem Arranged.filter (h : Arranged names order xs ys) (p : Row → Bool) :
    Arranged names order (xs.filter p) (ys.filter p) := by
  cases order with
  | none => exact congrArg (List.filter p) h
  | some o => exact StablyOrdered.filter h p

/-- Arranging keeps the number of rows. -/
theorem Arranged.length_eq (h : Arranged names order xs ys) : ys.length = xs.length := by
  cases order with
  | none => rw [show ys = xs from h]
  | some o => exact h.perm.length_eq

end

/-! ### What is looked up -/

namespace Query

variable {q : Query} {emptyAverage : EmptyAverage} {t : Table} {r : Answer}

/-- What a query names, looked up in a table: the test of rows, the place and direction of the
order, and the places of the aggregates. -/
def lookUps (q : Query) (t : Table) :
    Except QueryError ((Row → Bool) × Option (Nat × Direction) × List Nat) := do
  let keep ← Condition.bindAll t q.conditions
  let order ← q.order.mapM fun o => return (← t.lookUp o.column, o.direction)
  let places ← q.aggregates.mapM fun a => t.lookUp a.column
  return (keep, order, places)

/-- The names and values of the aggregates of a query, over the rows that are kept. -/
def entries (q : Query) (emptyAverage : EmptyAverage) (t : Table) (keep : Row → Bool)
    (places : List Nat) : Except QueryError (List (String × Double)) :=
  (q.aggregates.zip places).mapM fun (a, i) =>
    return (a.name, ← a.value emptyAverage (t.filter keep) i)

/-- A query is looked up, then its aggregates are taken; sorting what is kept cannot fail. The other
steps are in the order in which their faults are reported. -/
theorem answer_eq_bind (q : Query) (emptyAverage : EmptyAverage) (t : Table) :
    q.answer emptyAverage t = do
      let (keep, order, places) ← q.lookUps t
      let aggregates ← q.entries emptyAverage t keep places
      let sorted := match order with
        | none => t.filter keep
        | some (i, direction) => (t.filter keep).sort i direction
      return {
        columns := t.columnNames
        rowCount := sorted.rowCount
        rows := sorted.rows
        aggregates } := by
  rw [answer, lookUps]
  cases Condition.bindAll t q.conditions with
  | error cause => rfl
  | ok keep =>
    cases q.order.mapM fun o => do return (← t.lookUp o.column, o.direction) with
    | error cause => rfl
    | ok order => cases q.aggregates.mapM fun a => t.lookUp a.column <;> rfl

/-- What is looked up is there: predicates that fit, the column of the order and those of the
aggregates. -/
structure Found (q : Query) (t : Table) : Prop where
  conditions : ∀ c ∈ q.conditions, ∀ p ∈ c.leaves, p.Fits t
  order : ∀ o ∈ q.order, o.column ∈ t.columnNames
  aggregates : ∀ a ∈ q.aggregates, a.column ∈ t.columnNames

/-- All that a query names is in a table that it fits. -/
theorem Fits.found (h : q.Fits t) : q.Found t := by
  refine ⟨h.conditions, h.order, fun a ha => ?_⟩
  obtain ⟨kind, hkind, -⟩ := h.aggregates a ha
  exact Table.exists_columnIndex?_iff.1 (Table.exists_columnIndex?_of_kind? hkind)

/-- What is looked up is there. The rows that are kept are then those that meet the conditions, and
the places are those of the columns that are named. -/
theorem lookUps_eq_ok {keep : Row → Bool} {order : Option (Nat × Direction)}
    {places : List Nat} (h : q.lookUps t = .ok (keep, order, places)) :
    q.Found t ∧ (t.filter keep).rows = q.kept t ∧ OrderFound t q.order order ∧
      q.aggregates.mapM (fun a => t.lookUp a.column) = .ok places := by
  obtain ⟨keep', hkeep, h⟩ := bind_eq_ok_iff.1 h
  obtain ⟨order', horder, h⟩ := bind_eq_ok_iff.1 h
  obtain ⟨places', hplaces, h⟩ := bind_eq_ok_iff.1 h
  cases h
  obtain ⟨hconditions, rfl⟩ := Condition.bindAll_eq_ok_iff.1 hkeep
  have hfound := mapM_lookUp_eq_ok_iff.1 horder
  refine ⟨⟨?_, hfound.mem_columnNames, fun a ha => ?_⟩, t.rows_filter _, hfound, hplaces⟩
  · simpa only [Clause.leaves_eq_inOrder] using hconditions
  · obtain ⟨i, hi⟩ := exists_mapM_eq_ok_iff.1 ⟨places, hplaces⟩ a ha
    exact Table.exists_columnIndex?_iff.1 ⟨i, Table.lookUp_eq_ok_iff.1 hi⟩

/-- What is there is found. -/
theorem exists_lookUps (h : q.Found t) :
    ∃ keep order places, q.lookUps t = .ok (keep, order, places) := by
  have hconditions : ∀ c ∈ q.conditions, ∀ p ∈ c.inOrder, p.Fits t := by
    simpa only [Clause.leaves_eq_inOrder] using h.conditions
  obtain ⟨order, horder⟩ := exists_found h.order
  obtain ⟨places, hplaces⟩ : ∃ places, q.aggregates.mapM (fun a => t.lookUp a.column)
      = .ok places := by
    refine exists_mapM_eq_ok_iff.2 fun a ha => ?_
    obtain ⟨i, hi⟩ := Table.exists_columnIndex?_iff.2 (h.aggregates a ha)
    exact ⟨i, Table.lookUp_eq_ok_iff.2 hi⟩
  exact ⟨_, order, places, bind_eq_ok_iff.2 ⟨_, Condition.bindAll_eq_ok_iff.2 ⟨hconditions, rfl⟩,
    bind_eq_ok_iff.2 ⟨order, mapM_lookUp_eq_ok_iff.2 horder,
      bind_eq_ok_iff.2 ⟨places, hplaces, rfl⟩⟩⟩⟩

/-! ### The answer -/

/-- The aggregates of a query read the places of their columns off the table, and the rows off
what is kept of it. -/
theorem entries_eq_ok_iff {keep : Row → Bool} {places : List Nat}
    (hplaces : q.aggregates.mapM (fun a => t.lookUp a.column) = .ok places)
    (hkept : (t.filter keep).rows = q.kept t) {entries : List (String × Double)} :
    q.entries emptyAverage t keep places = .ok entries
      ↔ (∀ a ∈ q.aggregates, a.Fits t ∧ ¬a.Faults emptyAverage t.columnNames (q.kept t)) ∧
        entries = q.aggregates.map fun a => a.entry t.columnNames (q.kept t) := by
  have hfound : List.Forall₂ (fun a i => (t.filter keep).columnIndex? a.column = some i)
      q.aggregates places := by
    refine (mapM_eq_ok_iff.1 hplaces).imp fun a i hi => ?_
    rw [Table.columnIndex?_filter]
    exact Table.lookUp_eq_ok_iff.1 hi
  rw [Query.entries, Aggregate.mapM_value_eq_ok_iff hfound, Table.columnNames_filter, hkept]
  simp only [Aggregate.Fits, Table.kind?_filter]

/-- A query that is answered fits its table, and its answer is what is asked for. -/
theorem isAnswer_of_answer (h : q.answer emptyAverage t = .ok r) :
    q.Fits t ∧ (∀ a ∈ q.aggregates, ¬a.Faults emptyAverage t.columnNames (q.kept t)) ∧
      q.IsAnswer t r := by
  rw [answer_eq_bind] at h
  obtain ⟨⟨keep, order, places⟩, hlookUps, h⟩ := bind_eq_ok_iff.1 h
  obtain ⟨entries, hentries, h⟩ := bind_eq_ok_iff.1 h
  cases h
  -- The table that is kept has the columns of the table and the rows that meet the conditions.
  obtain ⟨hfound, hkept, horder, hplaces⟩ := lookUps_eq_ok hlookUps
  obtain ⟨haggregates, rfl⟩ := (entries_eq_ok_iff hplaces hkept).1 hentries
  have harranged := arranged_sort (horder.filter keep)
  rw [hkept, Table.columnNames_filter] at harranged
  exact ⟨⟨hfound.conditions, hfound.order, fun a ha => (haggregates a ha).1⟩,
    fun a ha => (haggregates a ha).2,
    ⟨rfl, harranged, harranged.length_eq, (Table.length_rows _).symm, rfl⟩⟩

/-- A query that fits its table is answered, unless some average of nothing has to fail. -/
theorem exists_answer (hfits : q.Fits t)
    (hfaults : ∀ a ∈ q.aggregates, ¬a.Faults emptyAverage t.columnNames (q.kept t)) :
    ∃ r, q.answer emptyAverage t = .ok r := by
  obtain ⟨keep, order, places, hlookUps⟩ := exists_lookUps hfits.found
  obtain ⟨-, hkept, -, hplaces⟩ := lookUps_eq_ok hlookUps
  have hentries := (entries_eq_ok_iff hplaces hkept).2
    ⟨fun a ha => ⟨hfits.aggregates a ha, hfaults a ha⟩, rfl⟩
  rw [answer_eq_bind]
  exact ⟨_, bind_eq_ok_iff.2 ⟨_, hlookUps, bind_eq_ok_iff.2 ⟨_, hentries, rfl⟩⟩⟩

/-- There is one answer at most. -/
theorem IsAnswer.unique {s : Answer} (hr : q.IsAnswer t r) (hs : q.IsAnswer t s) : r = s := by
  obtain ⟨columns, rowCount, rows, aggregates⟩ := r
  obtain ⟨columns', rowCount', rows', aggregates'⟩ := s
  obtain rfl : rows = rows' := hr.rows.unique hs.rows
  obtain rfl : columns = columns' := hr.columns.trans hs.columns.symm
  obtain rfl : rowCount = rowCount' := hr.rowCount.trans hs.rowCount.symm
  obtain rfl : aggregates = aggregates' := hr.aggregates.trans hs.aggregates.symm
  rfl

/-- Conditions that are harder to meet leave some of the rows, in the same order. -/
theorem IsAnswer.rows_sublist {q' : Query} {s : Answer} (hr : q.IsAnswer t r)
    (hs : q'.IsAnswer t s) (horder : q.order = q'.order)
    (hmeets : ∀ row, (∀ c ∈ q.conditions, c.Meets t.columnNames row) →
      ∀ c ∈ q'.conditions, c.Meets t.columnNames row) : r.rows.Sublist s.rows := by
  have hkept : q.kept t
      = (q'.kept t).filter fun row => ∀ c ∈ q.conditions, c.Meets t.columnNames row := by
    rw [kept, kept, List.filter_filter]
    refine List.filter_congr fun row _ => ?_
    rw [← Bool.decide_and, decide_eq_decide]
    exact ⟨fun h => ⟨h, hmeets row h⟩, And.left⟩
  have hrows := hs.rows.filter fun row => ∀ c ∈ q.conditions, c.Meets t.columnNames row
  rw [← hkept, ← horder] at hrows
  rw [hr.rows.unique hrows]
  exact List.filter_sublist

/-- A query is answered exactly if it fits the table and no average of nothing has to fail. The
answer has the rows that meet every condition, in the stable order that is asked for, the columns
of the table, and for each aggregate its value over the rows that are kept. -/
theorem answer_eq_ok_iff (q : Query) (emptyAverage : EmptyAverage) (t : Table) (r : Answer) :
    q.answer emptyAverage t = .ok r
      ↔ q.Fits t ∧ (∀ a ∈ q.aggregates, ¬a.Faults emptyAverage t.columnNames (q.kept t)) ∧
        q.IsAnswer t r := by
  constructor
  · exact isAnswer_of_answer
  · rintro ⟨hfits, hfaults, hanswer⟩
    obtain ⟨s, hs⟩ := exists_answer hfits hfaults
    obtain ⟨-, -, hanswer'⟩ := isAnswer_of_answer hs
    rw [hs, hanswer'.unique hanswer]

end Query

end Roster
