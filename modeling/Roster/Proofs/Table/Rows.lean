import Mathlib.Data.List.Basic
import Roster.Table.Basic

/-!
# `Roster.Proofs.Table.Rows`: the rows of a table that is picked from another

A table is stored by columns and read by rows. `rows_pick` says that the table of the rows at
some places has these rows, in this order; a place behind the last row would give a row of
missing cells, so the places have to be places of rows. `rows_filter` is the case of a filter:
its rows are those rows of the table that are kept.

A row is a bare list of cells, and a column is found in it by its place. `Row.cell` finds the
cell by the name of the column. Both find the same cell (`getD_eq_cell`): names are different, so
the place of a name is the place of its column.

The `schema` of a table is the names and kinds of its columns. Every look-up is one in the schema
(`columnIndex?_congr`, `kind?_congr`), so picking rows changes none of them. The schema and the rows
are all there is to a table (`eq_of_rows`), so two ways of making a table are compared by these.
-/

set_option autoImplicit false

namespace Roster

/-- The cell of a row in the column of a name, given the names of all columns. -/
def Row.cell (names : List String) (row : Row) (name : String) : Cell :=
  ((names.zip row).lookup name).getD .null

/-- The cell at the place of a name is the cell of that name. -/
theorem Row.getD_eq_cell {names : List String} {row : Row} {name : String} {i : Nat}
    (h : names.findIdx? (· == name) = some i) : row.getD i .null = row.cell names name := by
  induction names generalizing row i with
  | nil => simp at h
  | cons n names ih =>
    cases row with
    | nil => rfl
    | cons c row =>
      rw [List.findIdx?_cons] at h
      by_cases hn : n = name
      · subst hn
        rw [if_pos (by simp)] at h
        cases h
        simp [cell]
      · rw [if_neg (by simpa using hn)] at h
        obtain ⟨j, hj, rfl⟩ := Option.map_eq_some_iff.1 h
        -- The first column has another name, so both look behind it.
        have hlookup : cell (n :: names) (c :: row) name = cell names row name := by
          have hne : (name == n) = false := by simpa using Ne.symm hn
          simp [cell, List.lookup_cons, hne]
        rw [hlookup, ← ih hj, List.getD_cons_succ]

namespace Values

/-- The `k`-th of the picked cells is the cell at the `k`-th place. -/
theorem get_pick (places : List Nat) (v : Values) (k : Nat) :
    (v.pick places).get k = (places[k]?).elim .null v.get := by
  cases v <;> cases hk : places[k]? <;> simp [pick, get, hk]

/-- Past the end of a column there are only missing cells. -/
theorem get_of_size_le {v : Values} {i : Nat} (h : v.size ≤ i) : v.get i = .null := by
  cases v with
  | numbers cells => simp [get, Array.getElem?_eq_none h]
  | texts cells => simp [get, Array.getElem?_eq_none h]

/-- A column has as many cells as its size says. -/
@[simp] theorem length_toList (v : Values) : v.toList.length = v.size := by
  simp [toList]

/-- A column read as cells has the cells of the column, and is missing behind its end. -/
theorem getD_toList (v : Values) (i : Nat) : v.toList.getD i .null = v.get i := by
  by_cases h : i < v.size
  · simp [toList, h]
  · rw [get_of_size_le (by omega), List.getD_eq_getElem?_getD,
      List.getElem?_eq_none (by simp; omega)]
    rfl

/-- Cells of a column, stored as a column of its kind, are picked from it: none of them is of the
other kind. -/
theorem ofCells_map_get (v : Values) (places : List Nat) :
    ofCells v.kind (places.map fun i => v.get i) = v.pick places := by
  cases v with
  | numbers cells =>
    have hcell : ∀ i, (get i (numbers cells)).number? = (cells[i]?).join := by
      intro i
      rw [get]
      cases (cells[i]?).join <;> rfl
    simp [ofCells, kind, pick, Function.comp_def, hcell]
  | texts cells =>
    have hcell : ∀ i, (get i (texts cells)).text? = (cells[i]?).join := by
      intro i
      rw [get]
      cases (cells[i]?).join <;> rfl
    simp [ofCells, kind, pick, Function.comp_def, hcell]

/-- Picking all cells from top to bottom changes nothing. -/
theorem pick_range (v : Values) : v.pick (List.range v.size) = v := by
  cases v with
  | numbers cells =>
    rw [pick, numbers.injEq]
    exact Array.ext (by simp [size]) fun i _ hi => by simp [hi]
  | texts cells =>
    rw [pick, texts.injEq]
    exact Array.ext (by simp [size]) fun i _ hi => by simp [hi]

/-- A column is made of its cells. -/
theorem ofCells_toList (v : Values) : ofCells v.kind v.toList = v := by
  rw [toList, ofCells_map_get, pick_range]

end Values

namespace Table

variable {t : Table}

/-- A table has as many rows as its count says. -/
@[simp] theorem length_rows (t : Table) : t.rows.length = t.rowCount := by
  simp [rows]

/-- The place of a name among the columns is its place among their names. -/
theorem columnIndex?_eq (t : Table) (name : String) :
    t.columnIndex? name = t.columnNames.findIdx? (· == name) := by
  rw [columnIndex?, columnNames, List.findIdx?_map]
  rfl

/-- At the place that a name is found at there is a column of this name. -/
theorem exists_column_of_columnIndex? {name : String} {i : Nat}
    (h : t.columnIndex? name = some i) : ∃ c, t.columns[i]? = some c ∧ c.name = name := by
  obtain ⟨hi, hname, -⟩ := List.findIdx?_eq_some_iff_getElem.1 h
  exact ⟨t.columns[i], List.getElem?_eq_getElem hi, by simpa using hname⟩

/-- The column of a name is the one at the place of the name. -/
theorem column?_eq_bind (t : Table) (name : String) :
    t.column? name = (t.columnIndex? name).bind fun i => t.columns[i]? := by
  rw [column?, columnIndex?]
  induction t.columns with
  | nil => rfl
  | cons c columns ih =>
    rw [List.find?_cons, List.findIdx?_cons]
    cases c.name == name with
    | true => rfl
    | false =>
      rw [ih]
      cases columns.findIdx? (·.name == name) <;> rfl

/-- What the cells that are there in the column of a name are. -/
def kind? (t : Table) (name : String) : Option Kind :=
  (t.column? name).map fun c => c.values.kind

/-- A name has a place exactly if it is one of the names. -/
theorem exists_columnIndex?_iff {name : String} :
    (∃ i, t.columnIndex? name = some i) ↔ name ∈ t.columnNames := by
  rw [← Option.isSome_iff_exists, columnIndex?_eq, List.findIdx?_isSome, List.any_eq_true]
  simp

/-- The kind of a name is that of the column it is found at. -/
theorem kind?_eq_some {name : String} {i : Nat} {c : Column}
    (h : t.columnIndex? name = some i) (hc : t.columns[i]? = some c) :
    t.kind? name = some c.values.kind := by
  rw [kind?, column?_eq_bind, h, Option.bind_some, hc]
  rfl

/-- A name without a column has no place. -/
theorem kind?_eq_none_iff {name : String} :
    t.kind? name = none ↔ t.columnIndex? name = none := by
  rw [kind?, Option.map_eq_none_iff, column?_eq_bind]
  cases hplace : t.columnIndex? name with
  | none => simp
  | some i =>
    obtain ⟨c, hc, -⟩ := exists_column_of_columnIndex? hplace
    simp [hc]

/-- A column of a kind has a place. -/
theorem exists_columnIndex?_of_kind? {name : String} {kind : Kind}
    (h : t.kind? name = some kind) : ∃ i, t.columnIndex? name = some i := by
  obtain ⟨c, hc, -⟩ := Option.map_eq_some_iff.1 h
  rw [column?_eq_bind] at hc
  obtain ⟨i, hi, -⟩ := Option.bind_eq_some_iff.1 hc
  exact ⟨i, hi⟩

/-- A row holds the cells of the columns at its place. -/
theorem getD_row (t : Table) (i j : Nat) :
    (t.row i).getD j .null = (t.columns[j]?).elim .null fun c => c.values.get i := by
  cases hj : t.columns[j]? <;> simp [row, hj]

/-- The cells of a column from top to bottom are those of the rows at its place. -/
theorem toList_column {i : Nat} {c : Column} (h : t.columns[i]? = some c) :
    c.values.toList = t.rows.map fun r => r.getD i .null := by
  rw [Values.toList, t.size_eq c (List.mem_of_getElem? h), rows, List.map_map]
  refine List.map_congr_left fun k _ => ?_
  rw [Function.comp_apply, getD_row, h]
  rfl

/-! ### Picked rows -/

/-- There are as many rows as places that are picked. -/
theorem rowCount_pick {places : List Nat} (h : ∀ i ∈ places, i < t.rowCount) :
    (t.pick places).rowCount = places.length := by
  show (if t.columns.isEmpty then 0 else places.length) = places.length
  by_cases hc : t.columns = []
  · -- A table without columns has no rows, so nothing can be picked.
    have hnil : places = [] := by
      cases places with
      | nil => rfl
      | cons i places =>
        have hi := h i List.mem_cons_self
        rw [t.rowCount_eq_zero hc] at hi
        omega
    simp [hnil]
  · rw [if_neg (by simpa using hc)]

/-- A picked row is the row at the place it was picked from. -/
theorem row_pick {places : List Nat} {i k : Nat} (h : places[k]? = some i) :
    (t.pick places).row k = t.row i := by
  simp [row, pick, Values.get_pick, h]

/-- The rows of the picked table are the rows at the places, in their order. -/
theorem rows_pick {places : List Nat} (h : ∀ i ∈ places, i < t.rowCount) :
    (t.pick places).rows = places.map t.row := by
  rw [rows, rowCount_pick h]
  refine List.ext_getElem (by simp) fun k _ hk => ?_
  have hlt : k < places.length := by simpa using hk
  simp [row_pick (List.getElem?_eq_getElem hlt)]

/-- The rows that a filter keeps are those that are kept, in the order of the table. -/
theorem rows_filter (t : Table) (keep : Row → Bool) :
    (t.filter keep).rows = t.rows.filter keep := by
  have hplaces : ∀ i ∈ (List.range t.rowCount).filter fun i => keep (t.row i),
      i < t.rowCount := by
    intro i hi
    exact List.mem_range.1 (List.mem_filter.1 hi).1
  rw [filter, rows_pick hplaces, rows, List.filter_map]
  rfl

/-! ### Schemas -/

/-- The names and kinds of the columns, from left to right. -/
def schema (t : Table) : List (String × Kind) := t.columns.map fun c => (c.name, c.values.kind)

variable {t' : Table}

/-- Names are part of the schema. -/
theorem columnNames_congr (h : t.schema = t'.schema) : t.columnNames = t'.columnNames := by
  have hfst : ∀ t : Table, t.columnNames = t.schema.map Prod.fst := by
    intro t
    rw [columnNames, schema, List.map_map]
    rfl
  rw [hfst, hfst, h]

/-- A name has its place by the schema. -/
theorem columnIndex?_congr (h : t.schema = t'.schema) (name : String) :
    t.columnIndex? name = t'.columnIndex? name := by
  rw [columnIndex?_eq, columnIndex?_eq, columnNames_congr h]

/-- What is at a place is of the kind that the schema has there. -/
theorem kind_getElem?_congr (h : t.schema = t'.schema) (i : Nat) :
    (t.columns[i]?).map (fun c => c.values.kind) = (t'.columns[i]?).map fun c => c.values.kind := by
  have hsnd : ∀ t : Table, (t.columns[i]?).map (fun c => c.values.kind)
      = (t.schema[i]?).map Prod.snd := by
    intro t
    rw [schema, List.getElem?_map, Option.map_map]
    rfl
  rw [hsnd, hsnd, h]

/-- The column of a name is of the kind that the schema has for it. -/
theorem kind?_congr (h : t.schema = t'.schema) (name : String) :
    t.kind? name = t'.kind? name := by
  have hplace : ∀ t : Table, t.kind? name
      = (t.columnIndex? name).bind fun i => (t.columns[i]?).map fun c => c.values.kind := by
    intro t
    rw [kind?, column?_eq_bind, Option.map_bind]
    rfl
  rw [hplace, hplace, columnIndex?_congr h]
  simp only [kind_getElem?_congr h]

/-- Picked rows have the schema of the table. -/
theorem schema_pick (t : Table) (places : List Nat) : (t.pick places).schema = t.schema := by
  have hkind : ∀ v : Values, (v.pick places).kind = v.kind := by
    intro v
    cases v <;> rfl
  simp [schema, pick, Function.comp_def, hkind]

/-- Filtering keeps the kinds of columns. -/
@[simp] theorem kind?_filter (t : Table) (keep : Row → Bool) (name : String) :
    (t.filter keep).kind? name = t.kind? name :=
  kind?_congr (schema_pick t _) name

/-- Filtering keeps the names of columns. -/
@[simp] theorem columnNames_filter (t : Table) (keep : Row → Bool) :
    (t.filter keep).columnNames = t.columnNames :=
  columnNames_congr (schema_pick t _)

/-- Filtering keeps the places of columns. -/
@[simp] theorem columnIndex?_filter (t : Table) (keep : Row → Bool) (name : String) :
    (t.filter keep).columnIndex? name = t.columnIndex? name :=
  columnIndex?_congr (schema_pick t _) name

/-- A column is made of its name, its kind and the cells of the rows at its place. -/
theorem getElem?_columns (t : Table) (i : Nat) :
    t.columns[i]? = (t.schema[i]?).map fun entry =>
      ⟨entry.1, .ofCells entry.2 (t.rows.map fun r => r.getD i .null)⟩ := by
  rw [schema, List.getElem?_map, Option.map_map]
  cases hc : t.columns[i]? with
  | none => rfl
  | some c =>
    rw [Option.map_some, Function.comp_apply, ← toList_column hc, Values.ofCells_toList]

/-- A table is its schema and its rows. -/
theorem eq_of_rows (hschema : t.schema = t'.schema) (hrows : t.rows = t'.rows) : t = t' := by
  have hcolumns : t.columns = t'.columns := by
    refine List.ext_getElem? fun i => ?_
    rw [getElem?_columns, getElem?_columns, hschema, hrows]
  have hcount : t.rowCount = t'.rowCount := by
    rw [← length_rows, ← length_rows, hrows]
  obtain ⟨columns, rowCount, _, _, _⟩ := t
  obtain ⟨columns', rowCount', _, _, _⟩ := t'
  obtain rfl : columns = columns' := hcolumns
  obtain rfl : rowCount = rowCount' := hcount
  rfl

end Table

end Roster
