import Roster.Table.Cell
import Roster.Table.Error

/-!
# Tables

A table is a list of named columns of one length, no two of the same name. A column holds
numbers or texts, any of which may be missing. What a table means is its `rows`: row `i` has the
`i`-th cell of every column, in the order of the columns. A table without columns has no rows.

Tables are not changed. `Table.filter` and `Table.sort` pick rows of a table, `Table.pick` makes
the table of the picked rows: with the same columns, and in the order in which they are picked.

`Table.ofRecords` finds out what each column holds from texts, `Table.ofCells` from cells.
-/

set_option autoImplicit false

namespace Roster

/-- The cells of a row in the order of the columns. -/
abbrev Row := List Cell

/-- The cells of a column from top to bottom, `none` for a missing one. -/
inductive Values where
  | numbers (cells : Array (Option Double))
  | texts (cells : Array (Option String))

namespace Values

/-- The number of cells. -/
def size : Values → Nat
  | numbers cells => cells.size
  | texts cells => cells.size

/-- What the cells that are not missing are. -/
def kind : Values → Kind
  | numbers _ => .numeric
  | texts _ => .text

/-- A cell by its place; beyond the end all are missing. -/
def get (i : Nat) : Values → Cell
  | numbers cells => (cells[i]?).join.elim .null .number
  | texts cells => (cells[i]?).join.elim .null .text

/-- The cells at some places, in their order. -/
def pick (places : List Nat) : Values → Values
  | numbers cells => numbers (places.map fun i => (cells[i]?).join).toArray
  | texts cells => texts (places.map fun i => (cells[i]?).join).toArray

/-- All cells from top to bottom. -/
def toList (v : Values) : List Cell := (List.range v.size).map fun i => v.get i

/-- The values of cells of a kind; cells of the other kind are missing. -/
def ofCells (kind : Kind) (cells : List Cell) : Values :=
  match kind with
  | .numeric => numbers (cells.map Cell.number?).toArray
  | .text => texts (cells.map Cell.text?).toArray

/-- The values of fields: numbers if every field that is not empty is a finite numeral, and
texts otherwise. -/
def ofFields (fields : List String) : Values :=
  let cells := fields.map Cell.infer
  if cells.all (·.text?.isNone) then ofCells .numeric cells
  else texts (fields.map fun s => if s.isEmpty then none else some s).toArray

/-- As many values are picked as places are given. -/
theorem size_pick (places : List Nat) (v : Values) : (v.pick places).size = places.length := by
  cases v <;> simp [pick, size]

/-- A column of cells has one value for each. -/
theorem size_ofCells (kind : Kind) (cells : List Cell) :
    (ofCells kind cells).size = cells.length := by
  cases kind <;> simp [ofCells, size]

/-- A column of fields has one value for each. -/
theorem size_ofFields (fields : List String) : (ofFields fields).size = fields.length := by
  unfold ofFields
  dsimp only
  split
  · simp [size_ofCells]
  · simp [size]

end Values

/-- A named column. -/
structure Column where
  name : String
  values : Values

/-- Columns of one length with different names. -/
structure Table where
  columns : List Column
  rowCount : Nat
  size_eq : ∀ c ∈ columns, c.values.size = rowCount
  nodup : (columns.map Column.name).Nodup
  rowCount_eq_zero : columns = [] → rowCount = 0

namespace Table

/-! ## Reading a table -/

/-- The names of the columns. -/
def columnNames (t : Table) : List String := t.columns.map Column.name

/-- The place of the column of a name. -/
def columnIndex? (t : Table) (name : String) : Option Nat :=
  t.columns.findIdx? (·.name == name)

/-- The column of a name. -/
def column? (t : Table) (name : String) : Option Column :=
  t.columns.find? (·.name == name)

/-- The cells of one row. -/
def row (t : Table) (i : Nat) : Row := t.columns.map fun c => c.values.get i

/-- All rows from top to bottom. -/
def rows (t : Table) : List Row := (List.range t.rowCount).map t.row

/-! ## Picking rows -/

/-- The table of the rows at some places, in their order. -/
def pick (t : Table) (places : List Nat) : Table where
  columns := t.columns.map fun c => { c with values := c.values.pick places }
  rowCount := if t.columns.isEmpty then 0 else places.length
  size_eq := by
    intro c hc
    obtain ⟨c', hc', rfl⟩ := List.mem_map.1 hc
    have : t.columns.isEmpty = false := by
      cases h : t.columns with
      | nil => simp [h] at hc'
      | cons => rfl
    simp [this, Values.size_pick]
  nodup := by
    rw [List.map_map]
    exact t.nodup
  rowCount_eq_zero h := by
    simp only [List.map_eq_nil_iff] at h
    simp [h]

/-- The table of the rows that are kept. -/
def filter (t : Table) (keep : Row → Bool) : Table :=
  t.pick ((List.range t.rowCount).filter fun i => keep (t.row i))

/-- The table in the order of the column at a place; rows that are equal there stay in their
order. A place without a column leaves the table as it is. -/
def sort (t : Table) (index : Nat) (direction : Direction) : Table :=
  match t.columns[index]? with
  | none => t
  | some c =>
    t.pick ((List.range t.rowCount).mergeSort fun i j =>
      Cell.mayPrecede direction (c.values.get i) (c.values.get j))

/-! ## Building a table -/

/-- The first name that repeats an earlier one or one of those seen before. -/
def firstRepeated (seen : List String) : List String → Option String
  | [] => none
  | name :: names => if name ∈ seen then some name else firstRepeated (name :: seen) names

/-- If no name is found to be repeated, the names are distinct, and none is among those seen
before. -/
theorem nodup_of_firstRepeated {seen names : List String}
    (h : firstRepeated seen names = none) : names.Nodup ∧ ∀ n ∈ names, n ∉ seen := by
  induction names generalizing seen with
  | nil => simp
  | cons name names ih =>
    unfold firstRepeated at h
    split at h
    · cases h
    · rename_i hname
      obtain ⟨hnodup, hseen⟩ := ih h
      refine ⟨List.nodup_cons.2 ⟨fun hmem => hseen name hmem (by simp), hnodup⟩, ?_⟩
      intro n hn
      rcases List.mem_cons.1 hn with rfl | hn
      · exact hname
      · exact fun hmem => hseen n hn (List.mem_cons_of_mem _ hmem)

/-- The table of columns that are known to have one length. -/
def ofColumns (columns : List Column) (rowCount : Nat)
    (size_eq : ∀ c ∈ columns, c.values.size = rowCount) : Except TableError Table :=
  match h : firstRepeated [] (columns.map Column.name) with
  | some name => .error (.duplicateColumn name)
  | none =>
    .ok {
      columns
      rowCount := if columns.isEmpty then 0 else rowCount
      size_eq := by
        intro c hc
        have : columns.isEmpty = false := by
          cases columns with
          | nil => simp at hc
          | cons => rfl
        simpa [this] using size_eq c hc
      nodup := (nodup_of_firstRepeated h).1
      rowCount_eq_zero := by rintro rfl; rfl }

/-- Checks that rows have a width; the first that has not is named, counted from one more than
`above`. -/
def checkWidths (expected above : Nat) : List Nat → Except TableError Unit
  | [] => .ok ()
  | found :: widths =>
    if found = expected then checkWidths expected (above + 1) widths
    else .error (.ragged (above + 1) found expected)

/-- The kind of a column of cells; numbers, if all are missing. -/
def kindOf (name : String) (cells : List Cell) : Except TableError Kind :=
  let hasText := cells.any (·.text?.isSome)
  if cells.any (·.number?.isSome) && hasText then .error (.mixedColumn name)
  else .ok (if hasText then .text else .numeric)

/-- The `j`-th entry of every row. -/
def transposed {α : Type} [Inhabited α] (rows : List (List α)) (j : Nat) : List α :=
  rows.map fun r => r.getD j default

instance : Inhabited Cell := ⟨.null⟩

/-- Named columns of fields. -/
def columnsOfRecords (records : List (List String)) (j : Nat) : List String → List Column
  | [] => []
  | name :: names =>
    { name, values := .ofFields (transposed records j) }
      :: columnsOfRecords records (j + 1) names

/-- Every column that is made from records has one value for each record. -/
theorem size_of_mem_columnsOfRecords {records : List (List String)} {j : Nat}
    {names : List String} {c : Column} (h : c ∈ columnsOfRecords records j names) :
    c.values.size = records.length := by
  induction names generalizing j with
  | nil => simp [columnsOfRecords] at h
  | cons name names ih =>
    rcases List.mem_cons.1 h with rfl | h
    · simp [Values.size_ofFields, transposed]
    · exact ih h

/-- The table of headers and records of fields. -/
def ofRecords (headers : List String) (records : List (List String)) :
    Except TableError Table := do
  checkWidths headers.length 0 (records.map List.length)
  ofColumns (columnsOfRecords records 0 headers) records.length
    fun _ h => size_of_mem_columnsOfRecords h

/-- Named columns of cells, or the first column that has both numbers and texts. -/
def columnsOfCells (rows : List Row) (j : Nat) :
    List String → Except TableError { columns : List Column //
      ∀ c ∈ columns, c.values.size = rows.length }
  | [] => .ok ⟨[], by simp⟩
  | name :: names => do
    let cells := transposed rows j
    let kind ← kindOf name cells
    let ⟨columns, h⟩ ← columnsOfCells rows (j + 1) names
    return ⟨{ name, values := .ofCells kind cells } :: columns, by
      intro c hc
      rcases List.mem_cons.1 hc with rfl | hc
      · simp [Values.size_ofCells, cells, transposed]
      · exact h c hc⟩

/-- The table of column names and rows of cells. -/
def ofCells (names : List String) (rows : List Row) : Except TableError Table := do
  checkWidths names.length 0 (rows.map List.length)
  let ⟨columns, h⟩ ← columnsOfCells rows 0 names
  ofColumns columns rows.length h

end Table

end Roster
