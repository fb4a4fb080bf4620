import Roster.Proofs.Outcome
import Roster.Proofs.Table.Ordering

/-!
# `Roster.Proofs.Table.Storage`: a table survives being taken apart and stored anew

A `Table` cannot have two columns of one name, columns of different lengths or a number in a column
of texts, and picking rows of it cannot fail. This file shows that nothing of this is owed to the
type. A `StoredTable` is a frame of a store of columns, which may refuse a column and may not have
one that is asked for, and next to it a list of names and kinds that nothing ties to the frame.
Rows are picked by reading every column as cells, an index behind its end as a missing cell, and
storing what is picked as a column of the kind that is listed, a cell of the other kind as a
missing one.

`ColumnStore.Laws` is all that is asked of a store. Adding a column fails only for a name that is
taken or for another length, and a column that has been added is there, unchanged, under its name
and kind. `Represents` says that a stored table holds the columns of a `Table`. Building a stored
table gives one that represents the `Table` of the same records or cells, or fails as that does
(`agrees_ofRecords`, `agrees_ofCells`); filtering and sorting one gives one that represents the
`Table` that is filtered or sorted, and does not fail (`Represents.filter`, `Represents.sort`).

`sound_of_obtained` is the main result: every stored table that can be had by building, filtering
and sorting has different names, columns of its length and of the kinds that are listed, and can be
filtered and sorted further without losing or tearing a row. `ColumnStore.listed` is a store with
the laws.
-/

set_option autoImplicit false

namespace Roster

/-! ### Columns as cells -/

/-- The kind of a cell that is not missing. -/
def Cell.kind? : Cell → Option Kind
  | null => none
  | number _ => some .numeric
  | text _ => some .text

namespace Values

/-- A cell of a column that is not missing is of the kind of the column. -/
theorem kind?_of_mem_toList {v : Values} {c : Cell} (h : c ∈ v.toList) :
    c = .null ∨ c.kind? = some v.kind := by
  obtain ⟨i, -, rfl⟩ := List.mem_map.1 h
  cases v with
  | numbers cells =>
    rw [get]
    cases (cells[i]?).join with
    | none => exact .inl rfl
    | some n => exact .inr rfl
  | texts cells =>
    rw [get]
    cases (cells[i]?).join with
    | none => exact .inl rfl
    | some s => exact .inr rfl

/-- Cells picked from a column and stored as a column of its kind are the picked column. -/
theorem ofCells_picked (v : Values) (places : List Nat) :
    ofCells v.kind (places.map fun i => v.toList.getD i .null) = v.pick places := by
  simp only [getD_toList, ofCells_map_get]

end Values

/-! ### Stores of columns -/

/-- What a store of named columns offers. -/
structure ColumnStore where
  Frame : Type
  Fault : Type
  /-- The frame without columns. -/
  empty : Frame
  contains : Frame → String → Bool
  /-- The number of rows. -/
  height : Frame → Nat
  add : Frame → String → Values → Except Fault Frame
  /-- The column of a name, if it is there and of the kind that is asked for. -/
  get? : Frame → String → Kind → Option Values

/-- What is asked of a store:

- the empty frame has no columns and no rows;
- a column can be added if its name is free and its length is that of the frame, or any length if
  it is the first one;
- then there is its name besides those that were there, the frame has its length, and it is found
  under its name and kind; the other columns are as they were. -/
structure ColumnStore.Laws (S : ColumnStore) : Prop where
  contains_empty : ∀ name, S.contains S.empty name = false
  height_empty : S.height S.empty = 0
  exists_add : ∀ {frame name values}, S.contains frame name = false →
    (∀ m, S.contains frame m = false) ∨ values.size = S.height frame →
    ∃ frame', S.add frame name values = .ok frame'
  contains_add : ∀ {frame name values frame'}, S.add frame name values = .ok frame' →
    ∀ m, S.contains frame' m = (m == name || S.contains frame m)
  height_add : ∀ {frame name values frame'}, S.add frame name values = .ok frame' →
    S.height frame' = values.size
  get?_add : ∀ {frame name values frame'}, S.add frame name values = .ok frame' →
    S.get? frame' name values.kind = some values
  get?_add_of_ne : ∀ {frame name values frame'}, S.add frame name values = .ok frame' →
    ∀ m ≠ name, S.get? frame' m = S.get? frame m

/-- A table as it is stored: a frame, and the names and kinds of the columns from left to right. -/
structure StoredTable (S : ColumnStore) where
  frame : S.Frame
  columns : List (String × Kind)

namespace StoredTable

variable {S : ColumnStore}

/-- Why a table could not be stored: there is no such table, or the store has refused a column. -/
inductive Fault (S : ColumnStore) where
  | table (cause : TableError)
  | store (cause : S.Fault)

/-- Stores columns behind those that are stored already. -/
def addAll (T : StoredTable S) : List Column → Except (Fault S) (StoredTable S)
  | [] => .ok T
  | c :: rest =>
    if S.contains T.frame c.name then .error (.table (.duplicateColumn c.name))
    else
      match S.add T.frame c.name c.values with
      | .error cause => .error (.store cause)
      | .ok frame => addAll ⟨frame, T.columns ++ [(c.name, c.values.kind)]⟩ rest

/-- Stores columns. -/
def build (S : ColumnStore) (columns : List Column) : Except (Fault S) (StoredTable S) :=
  addAll ⟨S.empty, []⟩ columns

/-- Stores the table of headers and records of fields. -/
def ofRecords (S : ColumnStore) (headers : List String) (records : List (List String)) :
    Except (Fault S) (StoredTable S) := do
  (Table.checkWidths headers.length 0 (records.map List.length)).mapError .table
  build S (Table.columnsOfRecords records 0 headers)

/-- Stores the table of column names and rows of cells. -/
def ofCells (S : ColumnStore) (names : List String) (rows : List Row) :
    Except (Fault S) (StoredTable S) := do
  (Table.checkWidths names.length 0 (rows.map List.length)).mapError .table
  let columns ← (Table.columnsOfCells rows 0 names).mapError .table
  build S columns

/-- The number of rows. -/
def rowCount (T : StoredTable S) : Nat := S.height T.frame

/-- The cells of a column from top to bottom; all are missing if the frame does not have it. -/
def cells (T : StoredTable S) (column : String × Kind) : List Cell :=
  match S.get? T.frame column.1 column.2 with
  | some values => values.toList
  | none => List.replicate T.rowCount .null

/-- All rows from top to bottom. -/
def rows (T : StoredTable S) : List Row :=
  (List.range T.rowCount).map fun i => T.columns.map fun c => (T.cells c).getD i .null

/-- Stores the rows at some places, in their order. -/
def take (T : StoredTable S) (places : List Nat) : Except (Fault S) (StoredTable S) :=
  build S (T.columns.map fun c =>
    ⟨c.1, .ofCells c.2 (places.map fun i => (T.cells c).getD i .null)⟩)

/-- Stores the rows that are kept. -/
def filter (T : StoredTable S) (keep : Row → Bool) : Except (Fault S) (StoredTable S) :=
  T.take ((T.rows.zipIdx.filter fun r => keep r.1).map Prod.snd)

/-- Stores the rows in the order of the column at a place. -/
def sort (T : StoredTable S) (index : Nat) (direction : Direction) :
    Except (Fault S) (StoredTable S) :=
  match T.columns[index]? with
  | none => .ok T
  | some c =>
    let cells := T.cells c
    T.take ((List.range cells.length).mergeSort fun i j =>
      Cell.mayPrecede direction (cells.getD i .null) (cells.getD j .null))

/-- A stored table that can be had from records or cells by filtering and sorting. -/
inductive Obtained : StoredTable S → Prop
  | ofRecords {headers : List String} {records : List (List String)} {T : StoredTable S} :
    ofRecords S headers records = .ok T → Obtained T
  | ofCells {names : List String} {rows : List Row} {T : StoredTable S} :
    ofCells S names rows = .ok T → Obtained T
  | filter {T T' : StoredTable S} {keep : Row → Bool} :
    Obtained T → T.filter keep = .ok T' → Obtained T'
  | sort {T T' : StoredTable S} {index : Nat} {direction : Direction} :
    Obtained T → T.sort index direction = .ok T' → Obtained T'

/-! ### Storing columns -/

variable {T : StoredTable S} {columns rest : List Column} {c : Column} {n : Nat} {name : String}

/-- A stored table holds columns of a length, under their names and kinds, and no others. -/
structure Holds (T : StoredTable S) (columns : List Column) (n : Nat) : Prop where
  columns_eq : T.columns = columns.map fun c => (c.name, c.values.kind)
  contains_iff : ∀ m, S.contains T.frame m = true ↔ m ∈ columns.map Column.name
  rowCount_eq : T.rowCount = if columns.isEmpty then 0 else n
  get?_eq : ∀ c ∈ columns, S.get? T.frame c.name c.values.kind = some c.values

/-- A store without columns holds none, of whatever height. -/
theorem holds_empty (hS : S.Laws) (n : Nat) : (⟨S.empty, []⟩ : StoredTable S).Holds [] n where
  columns_eq := rfl
  contains_iff m := by simp [hS.contains_empty]
  rowCount_eq := hS.height_empty
  get?_eq c hc := by cases hc

/-- A column of a new name and of the length of the others can be stored behind them. The store
takes a column if its name is free and its length fits, and the laws say what is found in it
afterwards. -/
theorem Holds.add (hS : S.Laws) (h : T.Holds columns n) (hname : c.name ∉ columns.map Column.name)
    (hsize : c.values.size = n) :
    ∃ frame, S.add T.frame c.name c.values = .ok frame ∧
      (⟨frame, T.columns ++ [(c.name, c.values.kind)]⟩ : StoredTable S).Holds
        (columns ++ [c]) n := by
  have hfree : S.contains T.frame c.name = false := by
    rwa [← Bool.not_eq_true, h.contains_iff]
  -- The first column sets the height, and every other one has to have it.
  have hlength : (∀ m, S.contains T.frame m = false) ∨ c.values.size = S.height T.frame := by
    by_cases hempty : columns = []
    · left
      intro m
      rw [← Bool.not_eq_true, h.contains_iff, hempty]
      exact List.not_mem_nil
    · right
      have hheight : S.height T.frame = n := by
        rw [← rowCount, h.rowCount_eq, if_neg (by simpa using hempty)]
      rw [hheight, hsize]
  obtain ⟨frame, hadd⟩ := hS.exists_add hfree hlength
  refine ⟨frame, hadd, ?_, fun m => ?_, ?_, ?_⟩
  · rw [h.columns_eq, List.map_append]
    rfl
  · rw [hS.contains_add hadd, Bool.or_eq_true, h.contains_iff, List.map_append, List.mem_append,
      or_comm]
    simp
  · simpa [rowCount, hsize] using hS.height_add hadd
  · intro d hd
    rcases List.mem_append.1 hd with hd | hd
    · have hne : d.name ≠ c.name := by
        intro heq
        exact hname (heq ▸ List.mem_map_of_mem hd)
      rw [hS.get?_add_of_ne hadd _ hne, h.get?_eq d hd]
    · obtain rfl := List.mem_singleton.1 hd
      exact hS.get?_add hadd

/-- Columns of one length and of different names can be stored. The induction is on the columns, and
each of them finds its name free because none of the others has it. -/
theorem Holds.addAll (hS : S.Laws) (h : T.Holds columns n) (hsize : ∀ c ∈ rest, c.values.size = n)
    (hnodup : ((columns ++ rest).map Column.name).Nodup) :
    ∃ T', T.addAll rest = .ok T' ∧ T'.Holds (columns ++ rest) n := by
  induction rest generalizing T columns with
  | nil => exact ⟨T, rfl, by rwa [List.append_nil]⟩
  | cons c rest ih =>
    obtain ⟨hc, hrest⟩ := List.forall_mem_cons.1 hsize
    have hname : c.name ∉ columns.map Column.name := by
      rw [List.map_append, List.nodup_append] at hnodup
      intro hmem
      exact hnodup.2.2 _ hmem _ List.mem_cons_self rfl
    obtain ⟨frame, hadd, hholds⟩ := h.add hS hname hc
    rw [List.append_cons] at hnodup ⊢
    obtain ⟨T', hT', hholds'⟩ := ih hholds hrest hnodup
    refine ⟨T', ?_, hholds'⟩
    have hfree : ¬S.contains T.frame c.name = true := by rwa [h.contains_iff]
    rw [StoredTable.addAll, if_neg hfree, hadd]
    exact hT'

/-- Columns cannot be stored if a name repeats one of those before it, and the first that does is
the fault. -/
theorem Holds.addAll_of_firstRepeated (hS : S.Laws) (h : T.Holds columns n)
    (hsize : ∀ c ∈ rest, c.values.size = n) {seen : List String}
    (hseen : ∀ m, m ∈ seen ↔ m ∈ columns.map Column.name)
    (hfirst : Table.firstRepeated seen (rest.map Column.name) = some name) :
    T.addAll rest = .error (.table (.duplicateColumn name)) := by
  induction rest generalizing T columns seen with
  | nil => cases hfirst
  | cons c rest ih =>
    obtain ⟨hc, hrest⟩ := List.forall_mem_cons.1 hsize
    rw [List.map_cons, Table.firstRepeated] at hfirst
    split at hfirst
    · rename_i hmem
      cases hfirst
      rw [StoredTable.addAll, if_pos ((h.contains_iff _).2 ((hseen _).1 hmem))]
    · rename_i hmem
      rw [hseen] at hmem
      -- A new name is stored, and is one of those seen from then on.
      obtain ⟨frame, hadd, hholds⟩ := h.add hS hmem hc
      have hfree : ¬S.contains T.frame c.name = true := by rwa [h.contains_iff]
      rw [StoredTable.addAll, if_neg hfree, hadd]
      refine ih hholds hrest (fun m => ?_) hfirst
      rw [List.mem_cons, hseen, List.map_append, List.mem_append, or_comm]
      simp

/-! ### Stored tables and tables -/

/-- A stored table holds the columns of a table. -/
def Represents (T : StoredTable S) (t : Table) : Prop := T.Holds t.columns t.rowCount

/-- A stored table is had exactly if there is a table, which it represents, and otherwise the fault
is that of the table. -/
def Agrees (stored : Except (Fault S) (StoredTable S)) (table : Except TableError Table) : Prop :=
  match table with
  | .error cause => stored = .error (.table cause)
  | .ok t => ∃ T, stored = .ok T ∧ T.Represents t

/-- Columns of different names and of one length are stored. -/
theorem exists_build (hS : S.Laws) (hsize : ∀ c ∈ columns, c.values.size = n)
    (hnodup : (columns.map Column.name).Nodup) :
    ∃ T, build S columns = .ok T ∧ T.Holds columns n :=
  (holds_empty hS n).addAll hS hsize hnodup

/-- Columns are stored as the table of the columns, or fail as it does. -/
theorem agrees_build (hS : S.Laws) (h : ∀ c ∈ columns, c.values.size = n) :
    Agrees (build S columns) (Table.ofColumns columns n h) := by
  unfold Table.ofColumns
  split
  · rename_i name hfirst
    exact (holds_empty hS n).addAll_of_firstRepeated hS h (by simp) hfirst
  · rename_i hnone
    obtain ⟨T, hT, hholds⟩ := exists_build hS h (Table.nodup_of_firstRepeated hnone).1
    refine ⟨T, hT, hholds.columns_eq, hholds.contains_iff, ?_, hholds.get?_eq⟩
    rw [hholds.rowCount_eq]
    dsimp only
    split <;> rfl

/-- What fails before anything is stored fails alike. -/
theorem Agrees.bind {α : Type} {x : Except TableError α}
    {f : α → Except (Fault S) (StoredTable S)} {g : α → Except TableError Table}
    (h : ∀ a, x = .ok a → Agrees (f a) (g a)) : Agrees (x.mapError .table >>= f) (x >>= g) := by
  cases x with
  | error cause => rfl
  | ok a => exact h a rfl

/-- Records are stored as the table of the records, or fail as it does. -/
theorem agrees_ofRecords (hS : S.Laws) (headers : List String) (records : List (List String)) :
    Agrees (ofRecords S headers records) (Table.ofRecords headers records) :=
  Agrees.bind fun _ _ => agrees_build hS _

/-- Cells are stored as the table of the cells, or fail as it does. -/
theorem agrees_ofCells (hS : S.Laws) (names : List String) (rows : List Row) :
    Agrees (ofCells S names rows) (Table.ofCells names rows) :=
  Agrees.bind fun _ _ => Agrees.bind fun columns _ => agrees_build hS columns.2

namespace Represents

variable {t : Table}

/-- A stored table has the schema of the table that it represents. -/
theorem columns_eq (h : T.Represents t) : T.columns = t.schema := Holds.columns_eq h

/-- It has as many rows. -/
theorem rowCount_eq (h : T.Represents t) : T.rowCount = t.rowCount := by
  rw [Holds.rowCount_eq h]
  split
  · rename_i hempty
    exact (t.rowCount_eq_zero (List.isEmpty_iff.1 hempty)).symm
  · rfl

/-- A column is stored as its values, under its name and kind. -/
theorem cells_eq (h : T.Represents t) (hc : c ∈ t.columns) :
    T.cells (c.name, c.values.kind) = c.values.toList := by
  rw [cells, Holds.get?_eq h c hc]

/-- It has the same rows. -/
theorem rows_eq (h : T.Represents t) : T.rows = t.rows := by
  rw [rows, h.rowCount_eq, Table.rows]
  refine List.map_congr_left fun i _ => ?_
  rw [h.columns_eq, Table.schema, List.map_map, Table.row]
  refine List.map_congr_left fun c hc => ?_
  rw [Function.comp_apply, h.cells_eq hc, Values.getD_toList]

/-- Rows that are picked and stored are the picked rows of the table. -/
theorem take (h : T.Represents t) (hS : S.Laws) (places : List Nat) :
    ∃ T', T.take places = .ok T' ∧ T'.Represents (t.pick places) := by
  have hcolumns : (T.columns.map fun c =>
      (⟨c.1, .ofCells c.2 (places.map fun i => (T.cells c).getD i .null)⟩ : Column))
      = (t.pick places).columns := by
    rw [h.columns_eq, Table.schema, List.map_map, Table.pick]
    refine List.map_congr_left fun c hc => ?_
    rw [Function.comp_apply, h.cells_eq hc, Values.ofCells_picked]
  rw [StoredTable.take, hcolumns]
  exact exists_build hS (t.pick places).size_eq (t.pick places).nodup

/-- The rows that are kept are those of the table. -/
theorem filter (h : T.Represents t) (hS : S.Laws) (keep : Row → Bool) :
    ∃ T', T.filter keep = .ok T' ∧ T'.Represents (t.filter keep) := by
  have hplaces : (T.rows.zipIdx.filter fun r => keep r.1).map Prod.snd
      = (List.range t.rowCount).filter fun i => keep (t.row i) := by
    have hzip : t.rows.zipIdx = (List.range t.rowCount).map fun i => (t.row i, i) := by
      refine List.ext_getElem (by simp [Table.rows]) fun i hi _ => ?_
      simp [Table.rows]
    rw [h.rows_eq, hzip, List.filter_map, List.map_map]
    exact List.map_id _
  rw [StoredTable.filter, hplaces]
  exact h.take hS _

/-- Sorting stores the sorted table. -/
theorem sort (h : T.Represents t) (hS : S.Laws) (index : Nat) (direction : Direction) :
    ∃ T', T.sort index direction = .ok T' ∧ T'.Represents (t.sort index direction) := by
  have hcolumn : T.columns[index]? = (t.columns[index]?).map fun c => (c.name, c.values.kind) := by
    rw [h.columns_eq, Table.schema, List.getElem?_map]
  unfold StoredTable.sort Table.sort
  cases hc : t.columns[index]? with
  | none =>
    rw [hcolumn, hc]
    exact ⟨T, rfl, h⟩
  | some c =>
    have hmem := List.mem_of_getElem? hc
    rw [hcolumn, hc, Option.map_some]
    dsimp only
    simp only [h.cells_eq hmem, Values.getD_toList, Values.length_toList, t.size_eq c hmem]
    exact h.take hS _

end Represents

/-! ### Stored tables that can be had -/

/-- Every stored table that can be had represents a table. The induction is on how the table has
been obtained: it is made in one of two ways, and filtered or sorted any number of times. -/
theorem Obtained.exists_represents (hS : S.Laws) (h : T.Obtained) : ∃ t, T.Represents t := by
  -- A table that could be stored agrees with one that could be made.
  have hagrees : ∀ {stored : Except (Fault S) (StoredTable S)} {table : Except TableError Table}
      {T : StoredTable S}, Agrees stored table → stored = .ok T → ∃ t, T.Represents t := by
    intro stored table T hstored hT
    cases table with
    | error cause =>
      cases hT.symm.trans hstored
    | ok t =>
      obtain ⟨T', hT', ht⟩ := hstored
      cases hT.symm.trans hT'
      exact ⟨t, ht⟩
  induction h with
  | ofRecords hT => exact hagrees (agrees_ofRecords hS _ _) hT
  | ofCells hT => exact hagrees (agrees_ofCells hS _ _) hT
  | filter _ hT' ih =>
    obtain ⟨t, ht⟩ := ih
    obtain ⟨T'', hT'', ht'⟩ := ht.filter hS _
    cases hT'.symm.trans hT''
    exact ⟨_, ht'⟩
  | sort _ hT' ih =>
    obtain ⟨t, ht⟩ := ih
    obtain ⟨T'', hT'', ht'⟩ := ht.sort hS _ _
    cases hT'.symm.trans hT''
    exact ⟨_, ht'⟩

/-- What holds of a stored table that is sound:

- `names_nodup`: no two columns have one name;
- `column`: the frame has every column that is listed, of the length of the table, and all cells of
  it that are not missing are of the kind that is listed;
- `filter`: filtering does not fail, keeps the columns, and has the rows that are kept, in their
  order;
- `sort`: sorting does not fail, keeps the columns, and has every row once;
- `represents`: it is a table, and filtered and sorted it is that table filtered and sorted. -/
structure Sound (T : StoredTable S) : Prop where
  names_nodup : (T.columns.map Prod.fst).Nodup
  column : ∀ c ∈ T.columns, ∃ values, S.get? T.frame c.1 c.2 = some values ∧
    values.size = T.rowCount ∧ ∀ cell ∈ values.toList, cell = .null ∨ cell.kind? = some c.2
  filter : ∀ keep, ∃ T', T.filter keep = .ok T' ∧ T'.columns = T.columns ∧
    T'.rows = T.rows.filter keep
  sort : ∀ index direction, ∃ T', T.sort index direction = .ok T' ∧ T'.columns = T.columns ∧
    T'.rows.Perm T.rows
  represents : ∃ t : Table, T.Represents t ∧ T.rows = t.rows ∧
    (∀ keep T', T.filter keep = .ok T' → T'.Represents (t.filter keep)) ∧
    ∀ index direction T', T.sort index direction = .ok T' →
      T'.Represents (t.sort index direction)

/-- Every stored table that can be had from records or cells by filtering and sorting is sound. -/
theorem sound_of_obtained (hS : S.Laws) (h : T.Obtained) : T.Sound := by
  -- All that is to be shown holds of the table that is represented.
  obtain ⟨t, ht⟩ := h.exists_represents hS
  refine ⟨?_, fun c hc => ?_, fun keep => ?_, fun index direction => ?_,
    t, ht, ht.rows_eq, fun keep T' hT' => ?_, fun index direction T' hT' => ?_⟩
  · rw [ht.columns_eq, Table.schema, List.map_map]
    exact t.nodup
  · rw [ht.columns_eq] at hc
    obtain ⟨d, hd, rfl⟩ := List.mem_map.1 hc
    refine ⟨d.values, Holds.get?_eq ht d hd, ?_, fun cell => Values.kind?_of_mem_toList⟩
    rw [ht.rowCount_eq, t.size_eq d hd]
  · obtain ⟨T', hT', ht'⟩ := ht.filter hS keep
    refine ⟨T', hT', ?_, ?_⟩
    · rw [ht'.columns_eq, ht.columns_eq, Table.filter, Table.schema_pick]
    · rw [ht'.rows_eq, ht.rows_eq, Table.rows_filter]
  · obtain ⟨T', hT', ht'⟩ := ht.sort hS index direction
    refine ⟨T', hT', ?_, ?_⟩
    · rw [ht'.columns_eq, ht.columns_eq, Table.schema_sort]
    · rw [ht'.rows_eq, ht.rows_eq, Table.rows_sort]
      exact List.mergeSort_perm _ _
  · obtain ⟨T'', hT'', ht''⟩ := ht.filter hS keep
    cases hT'.symm.trans hT''
    exact ht''
  · obtain ⟨T'', hT'', ht''⟩ := ht.sort hS index direction
    cases hT'.symm.trans hT''
    exact ht''

end StoredTable

/-! ### A store -/

namespace ColumnStore

/-- The length of the columns of a list, which have one length; none have the length zero. -/
def heightOf (columns : List Column) : Nat := columns.head?.elim 0 (·.values.size)

/-- Puts a column in front of those of a list, unless its name is taken or its length is another
one. -/
def addTo (columns : List Column) (name : String) (values : Values) :
    Except String (List Column) :=
  if columns.any (·.name == name) || !columns.isEmpty && values.size != heightOf columns then
    .error name
  else .ok (⟨name, values⟩ :: columns)

/-- Columns in a list, the last one that was added first. A column that is refused is named. -/
def listed : ColumnStore where
  Frame := List Column
  Fault := String
  empty := []
  contains columns name := columns.any (·.name == name)
  height := heightOf
  add := addTo
  get? columns name kind := (columns.find? (·.name == name)).bind fun c =>
    if c.values.kind = kind then some c.values else none

/-- A column that can be added is added in front. -/
theorem eq_cons_of_addTo {columns columns' : List Column} {name : String} {values : Values}
    (h : addTo columns name values = .ok columns') : columns' = ⟨name, values⟩ :: columns := by
  rw [addTo] at h
  split at h <;> cases h
  rfl

/-- A list of columns keeps the laws of stores, so they can be kept. -/
theorem laws_listed : listed.Laws where
  contains_empty _ := rfl
  height_empty := rfl
  exists_add := by
    intro (columns : List Column) name values (hfree : columns.any (·.name == name) = false)
      (hlength : (∀ m, columns.any (·.name == m) = false) ∨ values.size = heightOf columns)
    refine ⟨⟨name, values⟩ :: columns, ?_⟩
    -- No name is free of all columns unless there is none, so the length decides.
    show addTo columns name values = _
    rcases hlength with hnone | hsize
    · cases columns with
      | nil => rfl
      | cons c columns => exact absurd (hnone c.name) (by simp)
    · rw [addTo, if_neg (by simp [hfree, hsize])]
      rfl
  contains_add := by
    intro (columns : List Column) name values (columns' : List Column) h m
    obtain rfl := eq_cons_of_addTo h
    show (name == m || columns.any (·.name == m)) = (m == name || columns.any (·.name == m))
    rw [BEq.comm]
  height_add := by
    intro (columns : List Column) name values (columns' : List Column) h
    obtain rfl := eq_cons_of_addTo h
    rfl
  get?_add := by
    intro (columns : List Column) name values (columns' : List Column) h
    obtain rfl := eq_cons_of_addTo h
    simp [listed]
  get?_add_of_ne := by
    intro (columns : List Column) name values (columns' : List Column) h m hm
    obtain rfl := eq_cons_of_addTo h
    simp [listed, hm.symm]

end ColumnStore

/-- Two columns with a missing cell each, of which the second row is kept. -/
theorem StoredTable.sound_of_obtained_filtered :
    let T : StoredTable .listed :=
      ⟨[⟨"s", .texts #[none]⟩, ⟨"n", .numbers #[some .zero]⟩], [("n", .numeric), ("s", .text)]⟩
    ColumnStore.listed.Laws ∧ T.Obtained ∧ T.rows = [[.number .zero, .null]] ∧ T.Sound := by
  intro T
  let whole : StoredTable .listed :=
    ⟨[⟨"s", .texts #[some "x", none]⟩, ⟨"n", .numbers #[none, some .zero]⟩],
      [("n", .numeric), ("s", .text)]⟩
  have hwhole : StoredTable.ofCells .listed ["n", "s"]
      [[.null, .text "x"], [.number .zero, .null]] = .ok whole := rfl
  have hfilter : whole.filter (fun row => !(row.getD 0 .null).isNull) = .ok T := rfl
  have hobtained : T.Obtained := .filter (.ofCells hwhole) hfilter
  exact ⟨ColumnStore.laws_listed, hobtained, rfl,
    sound_of_obtained ColumnStore.laws_listed hobtained⟩

end Roster
