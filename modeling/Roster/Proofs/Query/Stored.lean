import Roster.Proofs.Query.Answer
import Roster.Proofs.Table.Storage

/-!
# `Roster.Proofs.Query.Stored`: queries over stored tables stay in range

A query reads a table by place: the kind of a column when a condition is bound, the cells of a row
when it is tested, the column of an aggregate, and the cells of an answer. `Query.answer` reads
what is not there as something missing. Here the same query runs over a stored table, and reading
at a place outside of a list is a stop of its own (`Halt.outOfRange`). So is a store that refuses
the rows that a filter or an order has picked (`Halt.store`).

`answer_eq` says that neither happens: over a stored table that represents a table the query gives
what `Query.answer` gives, or fails as that does. The places that are read were found before on
another table, the whole one, and rows that are kept or put in order are as wide as that
(`length_of_mem_rows`); a condition is tested only at places at which it was bound
(`passes_eq`). `readColumn_eq` says the same of the columns of an answer.

Every function is compared with the one it stands for by `Except.mapError`, and `mapError_bind`
puts such equations together.
-/

set_option autoImplicit false

namespace Roster

/-! ### Faults in other words -/

section
variable {ε ε' α β : Type} {g : ε → ε'}

/-- A sequence has its faults in other words if its parts have. -/
theorem mapError_bind {x : Except ε α} {x' : Except ε' α} {f : α → Except ε β}
    {f' : α → Except ε' β} (hx : x' = x.mapError g)
    (hf : ∀ a, x = .ok a → f' a = (f a).mapError g) :
    x' >>= f' = (x >>= f).mapError g := by
  subst hx
  cases x with
  | error e => rfl
  | ok a => exact hf a rfl

/-- A list has its faults in other words if its entries have. -/
theorem mapError_mapM {f : α → Except ε β} {f' : α → Except ε' β} {xs : List α}
    (h : ∀ a ∈ xs, f' a = (f a).mapError g) : xs.mapM f' = (xs.mapM f).mapError g := by
  induction xs with
  | nil => rfl
  | cons x xs ih =>
    obtain ⟨hx, hxs⟩ := List.forall_mem_cons.1 h
    rw [List.mapM_cons, List.mapM_cons]
    exact mapError_bind hx fun _ _ => mapError_bind (ih hxs) fun _ _ => rfl

/-- What a list gives comes from its entries. -/
theorem exists_of_mem_mapM {f : α → Except ε β} {xs : List α} {ys : List β}
    (h : xs.mapM f = .ok ys) {y : β} (hy : y ∈ ys) : ∃ x ∈ xs, f x = .ok y := by
  have hpairs := mapM_eq_ok_iff.1 h
  induction hpairs with
  | nil => cases hy
  | cons hx _ ih =>
    rcases List.mem_cons.1 hy with rfl | hy
    · exact ⟨_, List.mem_cons_self, hx⟩
    · obtain ⟨x, hmem, hfx⟩ := ih (mapM_eq_ok_iff.2 ‹_›) hy
      exact ⟨x, List.mem_cons_of_mem _ hmem, hfx⟩

/-- A clause has its faults in other words if its leaves have. -/
theorem Clause.mapError_mapLeaves {f : α → Except ε β} {f' : α → Except ε' β} (c : Clause α)
    (h : ∀ a, f' a = (f a).mapError g) : c.mapLeaves f' = (c.mapLeaves f).mapError g := by
  induction c with
  | leaf a =>
    rw [mapLeaves, mapLeaves, h]
    cases f a <;> rfl
  | and left right hleft hright =>
    exact mapError_bind hleft fun _ _ => mapError_bind hright fun _ _ => rfl
  | or left right hleft hright =>
    exact mapError_bind hleft fun _ _ => mapError_bind hright fun _ _ => rfl

end

/-! ### Queries over stored tables -/

namespace StoredTable

/-- Why a query over a stored table stops. -/
inductive Halt (S : ColumnStore) where
  /-- The query is at fault. -/
  | query (cause : QueryError)
  /-- The store has refused rows that were picked. -/
  | store (cause : Fault S)
  /-- There is nothing at a place. -/
  | outOfRange

variable {S : ColumnStore}

/-- What is at a place of a list. -/
def entryAt {α : Type} (xs : List α) (i : Nat) : Except (Halt S) α :=
  match xs[i]? with
  | some a => .ok a
  | none => .error .outOfRange

/-- The place of a column that a query names. -/
def lookUp (T : StoredTable S) (column : String) : Except (Halt S) Nat :=
  match T.columns.findIdx? (·.1 == column) with
  | some i => .ok i
  | none => .error (.query (.unknownColumn column))

/-- The cells of the column of a name. -/
def columnValues? (T : StoredTable S) (column : String) : Option (List Cell) :=
  (T.columns.find? (·.1 == column)).map T.cells

/-- A predicate tied to the columns of a table. -/
def bindPredicate (T : StoredTable S) (p : Predicate) : Except (Halt S) BoundTest := do
  let index ← T.lookUp p.column
  let column ← entryAt T.columns index
  if p.test.kind = column.2 then return ⟨index, p.test⟩
  else throw (.query (.columnMismatch p.column column.2 p.test.literal))

/-- Whether a row passes. What is on the right of a connective is tested only if it matters. -/
def passes (row : Row) : Clause BoundTest → Except (Halt S) Bool
  | .leaf b => do return b.test.passes (← entryAt row b.index)
  | .and left right => do
    if ← passes row left then passes row right else return false
  | .or left right => do
    if ← passes row left then return true else passes row right

/-- Stores the rows that are kept, where testing a row may stop. -/
def filterWith (T : StoredTable S) (keep : Row → Except (Halt S) Bool) :
    Except (Halt S) (StoredTable S) := do
  let kept ← T.rows.zipIdx.filterM fun r => keep r.1
  (T.take (kept.map Prod.snd)).mapError .store

/-- The numbers in the column at a place, if it is one of numbers. -/
def numbers (kept : StoredTable S) (a : Aggregate) (index : Nat) :
    Except (Halt S) (List Double) := do
  let column ← entryAt kept.columns index
  if column.2 = .numeric then
    return ((kept.columnValues? column.1).getD []).filterMap Cell.number?
  else throw (.query (.nonNumericAggregate a.function a.column column.2))

/-- The value of an aggregate of the column at a place, over the rows of a table. -/
def value (kept : StoredTable S) (emptyAverage : EmptyAverage) (a : Aggregate) (index : Nat) :
    Except (Halt S) Double :=
  match a.function with
  | .count => return Double.ofNat kept.rowCount
  | .sum => do return total (← kept.numbers a index)
  | .average => do
    let xs ← kept.numbers a index
    if xs.isEmpty then
      match emptyAverage with
      | .nan => return Double.nan false
      | .fault => throw (.query (.emptyAverage a.column))
    else return mean xs

/-- The answer to a query. -/
def answer (T : StoredTable S) (emptyAverage : EmptyAverage) (q : Query) :
    Except (Halt S) Answer := do
  let bound ← q.conditions.mapM fun c => c.mapLeaves T.bindPredicate
  let order ← q.order.mapM fun o => return (← T.lookUp o.column, o.direction)
  let places ← q.aggregates.mapM fun a => T.lookUp a.column
  let kept ← T.filterWith fun row => bound.allM (passes row)
  let aggregates ← (q.aggregates.zip places).mapM fun (a, i) =>
    return (a.name, ← kept.value emptyAverage a i)
  let sorted ← match order with
    | none => pure kept
    | some (i, direction) => (kept.sort i direction).mapError .store
  return {
    columns := T.columns.map Prod.fst
    rowCount := sorted.rowCount
    rows := sorted.rows
    aggregates }

end StoredTable

/-- The cells of the column of a name in an answer. -/
def Answer.readColumn (S : ColumnStore) (a : Answer) (name : String) :
    Except (StoredTable.Halt S) (Option (List Cell)) :=
  match a.columns.findIdx? (· == name) with
  | none => return none
  | some i => do return some (← a.rows.mapM fun row => StoredTable.entryAt row i)

namespace StoredTable

variable {S : ColumnStore} {T K : StoredTable S} {t kept : Table}

/-- An entry that is there is found, so an index never runs out. -/
theorem entryAt_eq {α : Type} {xs : List α} {i : Nat} {a : α} (h : xs[i]? = some a) :
    (entryAt xs i : Except (Halt S) α) = .ok a := by
  rw [entryAt, h]

/-! ### What is looked up -/

namespace Represents

/-- A stored table looks a column up as the table that it represents does. -/
theorem lookUp_eq (h : T.Represents t) (column : String) :
    T.lookUp column = (t.lookUp column).mapError .query := by
  have hplace : T.columns.findIdx? (·.1 == column) = t.columnIndex? column := by
    rw [h.columns_eq, Table.schema, List.findIdx?_map]
    rfl
  rw [lookUp, Table.lookUp, hplace]
  cases t.columnIndex? column <;> rfl

/-- There is a column at the place of a name, of the kind that the table has for it. -/
theorem entryAt_columns (h : T.Represents t) {i : Nat} {c : Column} (hc : t.columns[i]? = some c) :
    (entryAt T.columns i : Except (Halt S) (String × Kind)) = .ok (c.name, c.values.kind) := by
  refine entryAt_eq ?_
  rw [h.columns_eq, Table.schema, List.getElem?_map, hc]
  rfl

/-- A stored table gives the values of a column as the table that it represents does. -/
theorem columnValues?_eq (h : T.Represents t) (column : String) :
    T.columnValues? column = (t.column? column).map fun c => c.values.toList := by
  rw [columnValues?, h.columns_eq, Table.schema, List.find?_map, Option.map_map]
  have hfind : t.columns.find? ((·.1 == column) ∘ fun c => (c.name, c.values.kind))
      = t.column? column := rfl
  rw [hfind]
  cases hc : t.column? column with
  | none => rfl
  | some c => exact congrArg some (h.cells_eq (List.mem_of_find?_eq_some hc))

/-- An order is looked up alike. -/
theorem order_eq (h : T.Represents t) (order : Option SortOrder) :
    (order.mapM fun o : SortOrder => do return (← T.lookUp o.column, o.direction))
      = (order.mapM fun o : SortOrder => do
        return (← t.lookUp o.column, o.direction)).mapError .query := by
  cases order with
  | none => rfl
  | some o =>
    show (T.lookUp o.column >>= fun i => .ok (i, o.direction)) >>= (fun p => .ok (some p))
      = ((t.lookUp o.column >>= fun i => .ok (i, o.direction)) >>= fun p => .ok (some p)).mapError
        .query
    rw [h.lookUp_eq]
    cases t.lookUp o.column <;> rfl

/-- A predicate is bound alike. -/
theorem bindPredicate_eq (h : T.Represents t) (p : Predicate) :
    T.bindPredicate p = (p.bind t).mapError .query := by
  cases hplace : t.columnIndex? p.column with
  | none => rw [bindPredicate, h.lookUp_eq, Predicate.bind, Table.lookUp, hplace]; rfl
  | some i =>
    obtain ⟨c, hc, -⟩ := Table.exists_column_of_columnIndex? hplace
    have hlookUp : T.lookUp p.column = .ok i := by
      rw [h.lookUp_eq, Table.lookUp, hplace]
      rfl
    -- The stored column is the one that the table has, so both compare the same two kinds.
    have hstored : T.bindPredicate p = if p.test.kind = c.values.kind then .ok ⟨i, p.test⟩
        else .error (.query (.columnMismatch p.column c.values.kind p.test.literal)) := by
      rw [bindPredicate, hlookUp]
      show (entryAt T.columns i >>= _) = _
      rw [h.entryAt_columns hc]
      rfl
    have hbind : p.bind t = if p.test.kind = c.values.kind then .ok ⟨i, p.test⟩
        else .error (.columnMismatch p.column c.values.kind p.test.literal) := by
      rw [Predicate.bind, hplace]
      dsimp only
      rw [hc]
      rfl
    rw [hstored, hbind]
    split <;> rfl

end Represents

/-! ### Testing rows -/

/-- Where a condition is tested only at places of the row, no place is out of range. -/
theorem passes_eq {row : Row} {c : Clause BoundTest}
    (h : ∀ b ∈ c.inOrder, b.index < row.length) :
    (passes row c : Except (Halt S) Bool) = .ok (c.holds (BoundTest.passes row)) := by
  induction c with
  | leaf b =>
    have hb : row[b.index]? = some (row.getD b.index .null) := by
      have hlt := h b (List.mem_singleton_self b)
      simp [hlt]
    rw [passes, entryAt_eq hb]
    rfl
  | and left right hleft hright =>
    obtain ⟨hl, hr⟩ := List.forall_mem_append.1 h
    rw [passes, hleft hl, hright hr, Clause.holds]
    cases left.holds (BoundTest.passes row) <;> rfl
  | or left right hleft hright =>
    obtain ⟨hl, hr⟩ := List.forall_mem_append.1 h
    rw [passes, hleft hl, hright hr, Clause.holds]
    cases left.holds (BoundTest.passes row) <;> rfl

/-- A condition that has been bound is tested at places of columns. -/
theorem index_lt_of_bind {c : Condition} {bound : Clause BoundTest}
    (h : c.mapLeaves (Predicate.bind t) = .ok bound) :
    ∀ b ∈ bound.inOrder, b.index < t.columns.length := by
  have hleaves : c.inOrder.mapM (Predicate.bind t) = .ok bound.inOrder := by
    rw [← Clause.map_inOrder_mapLeaves, h]
    rfl
  intro b hb
  obtain ⟨p, -, hbind⟩ := exists_of_mem_mapM hleaves hb
  obtain ⟨-, hplace, -⟩ := Predicate.bind_eq_ok_iff.1 hbind
  obtain ⟨hlt, -⟩ := List.findIdx?_eq_some_iff_getElem.1 hplace
  exact hlt

/-- Conditions whose indices are within the row are met as those of the table are. -/
theorem allM_passes_eq {row : Row} {bound : List (Clause BoundTest)}
    (h : ∀ c ∈ bound, ∀ b ∈ c.inOrder, b.index < row.length) :
    (bound.allM (passes row) : Except (Halt S) Bool)
      = .ok (bound.all fun c => c.holds (BoundTest.passes row)) := by
  induction bound with
  | nil => rfl
  | cons c bound ih =>
    obtain ⟨hc, hbound⟩ := List.forall_mem_cons.1 h
    rw [List.allM, passes_eq hc, List.all_cons]
    cases c.holds (BoundTest.passes row) with
    | false => rfl
    | true => exact ih hbound

/-- Every row of a table is as wide as the table. -/
theorem length_of_mem_rows {row : Row} (h : row ∈ t.rows) : row.length = t.columns.length := by
  obtain ⟨i, -, rfl⟩ := List.mem_map.1 h
  rw [Table.row, List.length_map]

/-- A test that never fails filters as the test without failures does. -/
theorem filterM_eq {α : Type} {p : α → Except (Halt S) Bool} {q : α → Bool} {xs : List α}
    (h : ∀ x ∈ xs, p x = .ok (q x)) : xs.filterM p = .ok (xs.filter q) := by
  -- What is kept is gathered in front of what has been kept before, the last one first.
  have hgather : ∀ kept, xs.filterAuxM p kept = .ok ((xs.filter q).reverse ++ kept) := by
    induction xs with
    | nil => exact fun _ => rfl
    | cons x xs ih =>
      obtain ⟨hx, hxs⟩ := List.forall_mem_cons.1 h
      intro kept
      rw [List.filterAuxM, hx, List.filter_cons]
      cases q x with
      | false => exact ih hxs kept
      | true =>
        show xs.filterAuxM p (x :: kept) = _
        rw [ih hxs, if_pos rfl, List.reverse_cons, List.append_assoc]
        rfl
  rw [List.filterM, hgather]
  simp [bind, Except.bind, pure, Except.pure]

/-- Where testing the rows does not stop, those that are kept are stored. -/
theorem filterWith_eq {p : Row → Except (Halt S) Bool} {q : Row → Bool}
    (h : ∀ row ∈ T.rows, p row = .ok (q row)) : T.filterWith p = (T.filter q).mapError .store := by
  have hrows : ∀ r ∈ T.rows.zipIdx, p r.1 = .ok (q r.1) :=
    fun r hr => h r.1 (List.fst_mem_of_mem_zipIdx hr)
  rw [filterWith, filterM_eq hrows]
  rfl

/-- Rows are kept by conditions that were bound to the table: they are as wide as the table at
whose places they are tested, so no place is out of range, and the store takes them. -/
theorem Represents.filterWith_bound (h : T.Represents t) (hS : S.Laws) {conditions : List Condition}
    {bound : List (Clause BoundTest)} (hbound : conditions.mapM (Condition.bind t) = .ok bound) :
    ∃ K, (T.filterWith fun row => bound.allM (passes row)) = pure K ∧
      K.Represents (t.filter fun row => bound.all fun c => c.holds (BoundTest.passes row)) := by
  have hkeep : ∀ row ∈ T.rows, (bound.allM (passes row) : Except (Halt S) Bool)
      = .ok (bound.all fun c => c.holds (BoundTest.passes row)) := by
    intro row hrow
    rw [h.rows_eq] at hrow
    refine allM_passes_eq fun c hc b hb => ?_
    obtain ⟨c', -, hbind⟩ := exists_of_mem_mapM hbound hc
    rw [length_of_mem_rows hrow]
    exact index_lt_of_bind hbind b hb
  obtain ⟨K, hK, hkept⟩ := h.filter hS fun row => bound.all fun c => c.holds (BoundTest.passes row)
  refine ⟨K, ?_, hkept⟩
  rw [filterWith_eq hkeep, hK]
  rfl

/-! ### Aggregates -/

/-- The column of an aggregate is there, and by its name the same one is found as by its place. -/
theorem Represents.numbers_eq (h : K.Represents kept) {a : Aggregate} {i : Nat}
    (hplace : kept.columnIndex? a.column = some i) :
    K.numbers a i = (a.numbers kept i).mapError .query := by
  obtain ⟨c, hc, hname⟩ := Table.exists_column_of_columnIndex? hplace
  have hcolumn : kept.column? c.name = some c := by
    rw [Table.column?_eq_bind, hname, hplace, Option.bind_some, hc]
  rw [numbers, h.entryAt_columns hc, Aggregate.numbers, hc]
  show (if c.values.kind = .numeric then
      .ok (((K.columnValues? c.name).getD []).filterMap Cell.number?)
    else .error (.query (.nonNumericAggregate a.function a.column c.values.kind)) :
      Except (Halt S) (List Double)) = _
  rw [h.columnValues?_eq, hcolumn]
  dsimp only [Option.map_some, Option.getD_some]
  split <;> rfl

/-- An aggregate has the same value over the stored rows that are kept. -/
theorem Represents.value_eq (h : K.Represents kept) (emptyAverage : EmptyAverage) {a : Aggregate}
    {i : Nat} (hplace : kept.columnIndex? a.column = some i) :
    K.value emptyAverage a i = (a.value emptyAverage kept i).mapError .query := by
  unfold value Aggregate.value
  cases a.function with
  | count => exact congrArg (fun n => Except.ok (Double.ofNat n)) h.rowCount_eq
  | sum =>
    show K.numbers a i >>= (fun xs => .ok (total xs)) = _
    rw [h.numbers_eq hplace]
    cases a.numbers kept i <;> rfl
  | average =>
    refine mapError_bind (h.numbers_eq hplace) fun xs _ => ?_
    split
    · cases emptyAverage <;> rfl
    · rfl

/-! ### Answers -/

/-- A query over a stored table gives what it gives over the table, and fails as it does there. The
steps are compared one by one. What is bound and looked up is the same, what is kept represents what
is kept, and so does what is sorted. -/
theorem Represents.answer_eq (h : T.Represents t) (hS : S.Laws) (emptyAverage : EmptyAverage)
    (q : Query) : T.answer emptyAverage q = (q.answer emptyAverage t).mapError .query := by
  have hconditions : (q.conditions.mapM fun c => c.mapLeaves T.bindPredicate)
      = (q.conditions.mapM (Condition.bind t)).mapError .query :=
    mapError_mapM fun c _ => c.mapError_mapLeaves h.bindPredicate_eq
  have hplaces : (q.aggregates.mapM fun a => T.lookUp a.column)
      = (q.aggregates.mapM fun a => t.lookUp a.column).mapError .query :=
    mapError_mapM fun a _ => h.lookUp_eq a.column
  rw [answer, Query.answer, Condition.bindAll]
  simp only [bind_assoc, pure_bind]
  refine mapError_bind hconditions fun bound hbound => ?_
  refine mapError_bind (h.order_eq q.order) fun order _ => ?_
  refine mapError_bind hplaces fun places hplaces => ?_
  obtain ⟨K, hfilter, hkept⟩ := h.filterWith_bound hS hbound
  rw [hfilter, pure_bind]
  refine mapError_bind (mapError_mapM fun p hmem => ?_) fun aggregates _ => ?_
  -- The columns are looked up in the whole table and read in the kept one, which has the same ones.
  · have hplace : t.columnIndex? p.1.column = some p.2 :=
      Table.lookUp_eq_ok_iff.1 ((List.forall₂_iff_zip.1 (mapM_eq_ok_iff.1 hplaces)).2 hmem)
    rw [← Table.columnIndex?_congr (Table.schema_pick t _)] at hplace
    exact mapError_bind (hkept.value_eq emptyAverage hplace) fun _ _ => rfl
  · have hcolumns : T.columns.map Prod.fst = t.columnNames := by
      rw [h.columns_eq, Table.schema, List.map_map]
      rfl
    rw [hcolumns]
    cases order with
    | none =>
      rw [hkept.rows_eq, hkept.rowCount_eq]
      rfl
    | some o =>
      obtain ⟨i, direction⟩ := o
      obtain ⟨L, hL, hsorted⟩ := hkept.sort hS i direction
      dsimp only
      rw [hL, ← hsorted.rows_eq, ← hsorted.rowCount_eq]
      rfl

/-! ### Columns of answers -/

/-- The rows of an answer are as wide as it has columns. -/
theorem length_of_mem_answer {q : Query} {emptyAverage : EmptyAverage} {r : Answer}
    (h : q.answer emptyAverage t = .ok r) {row : Row} (hrow : row ∈ r.rows) :
    row.length = r.columns.length := by
  obtain ⟨-, -, hanswer⟩ := Query.isAnswer_of_answer h
  have hmem : row ∈ q.kept t := by
    have harranged := hanswer.rows
    cases horder : q.order with
    | none =>
      rw [horder] at harranged
      have heq : r.rows = q.kept t := harranged
      rwa [← heq]
    | some o =>
      rw [horder] at harranged
      exact (StablyOrdered.perm harranged).mem_iff.1 hrow
  rw [length_of_mem_rows (List.mem_filter.1 hmem).1, hanswer.columns, Table.columnNames,
    List.length_map]

/-- A column of an answer is read at places that every row has. So the rows of an answer are never
read out of range. -/
theorem readColumn_eq {q : Query} {emptyAverage : EmptyAverage} {r : Answer}
    (h : q.answer emptyAverage t = .ok r) (name : String) :
    r.readColumn S name = .ok (r.columnValues? name) := by
  rw [Answer.readColumn, Answer.columnValues?]
  cases hplace : r.columns.findIdx? (· == name) with
  | none => rfl
  | some i =>
    obtain ⟨hlt, -⟩ := List.findIdx?_eq_some_iff_getElem.1 hplace
    -- Every row is as wide as the answer has columns, so no place lies outside of it.
    have hrows : ∀ row ∈ r.rows,
        (entryAt row i : Except (Halt S) Cell) = (.ok (row.getD i .null)) := by
      intro row hrow
      have hwidth := length_of_mem_answer h hrow
      refine entryAt_eq ?_
      simp [hwidth, hlt]
    have hcells : (r.rows.mapM fun row => (entryAt row i : Except (Halt S) Cell))
        = .ok (r.rows.map fun row => row.getD i .null) := by
      rw [mapM_eq_ok_iff, List.forall₂_map_right_iff, List.forall₂_same]
      exact hrows
    dsimp only [Option.map_some]
    rw [hcells]
    rfl

end StoredTable

end Roster
