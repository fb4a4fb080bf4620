import Mathlib.Data.List.Nodup
import Roster.Proofs.Outcome
import Roster.Proofs.Table.Storage

/-!
# `Roster.Proofs.Table.Records`: the cells of a table of records

A table of records has a column for each header and a row for each record. What is in a row at a
header is made of one field and of the kind of the whole column: `Kind.cellOf` says how, and
`cell_of_ofRecords` that this is the cell.

A column is found by its name at the place where it stands (`columnIndex?_of_getElem?`), since no
name comes twice.
-/

set_option autoImplicit false

namespace Roster

/-- The cell of a field in a column of a kind. -/
def Kind.cellOf (field : String) : Kind → Cell
  | numeric => Cell.infer field
  | text => if field.isEmpty then .null else .text field

/-- Only an empty field is missing. -/
theorem Kind.cellOf_ne_null {kind : Kind} {field : String} (h : field ≠ "") :
    kind.cellOf field ≠ .null := by
  have hempty : field.isEmpty = false := by simpa using h
  cases kind with
  | numeric =>
    rw [cellOf, Cell.infer, if_neg (by simp [hempty])]
    split
    · split <;> exact Cell.noConfusion
    · exact Cell.noConfusion
  | text =>
    rw [cellOf, if_neg (by simp [hempty])]
    exact Cell.noConfusion

namespace Values

variable {fields : List String} {field : String} {i : Nat}

/-- The cells of a column of fields are those of the fields, by the kind of the column. A numeric
column has no text among its fields, and in a text column a field that is empty is missing. -/
theorem get_ofFields (h : fields[i]? = some field) :
    (ofFields fields).get i = (ofFields fields).kind.cellOf field := by
  unfold ofFields
  dsimp only
  split
  · rename_i hnumbers
    -- In a numeric column every field is a numeral or empty.
    have hnone : (Cell.infer field).text?.isNone = true :=
      List.all_eq_true.1 hnumbers _ (List.mem_map_of_mem (List.mem_of_getElem? h))
    have hget : (ofCells .numeric (fields.map Cell.infer)).get i
        = (Cell.infer field).number?.elim .null .number := by
      simp [ofCells, get, h]
    rw [hget]
    show _ = Cell.infer field
    cases hcell : Cell.infer field with
    | null => rfl
    | number n => rfl
    | text s =>
      rw [hcell] at hnone
      cases hnone
  · show ((fields.map fun s => if s.isEmpty then none else some s).toArray[i]?).join.elim Cell.null
      .text = if field.isEmpty then Cell.null else .text field
    rw [List.getElem?_toArray, List.getElem?_map, h, Option.map_some, Option.join_some]
    split <;> rfl

end Values

namespace Table

variable {t : Table} {headers record : List String} {records : List (List String)}
  {name field : String} {i j : Nat} {kind : Kind}

/-- A column stands at the place of its name. -/
theorem columnIndex?_of_getElem? {c : Column} (h : t.columns[j]? = some c) :
    t.columnIndex? c.name = some j := by
  obtain ⟨hj, rfl⟩ := List.getElem?_eq_some_iff.1 h
  refine List.findIdx?_eq_some_iff_getElem.2 ⟨hj, by simp, fun k hk hsame => ?_⟩
  have hk' : k < (t.columns.map Column.name).length := by simpa using Nat.lt_trans hk hj
  have hj' : j < (t.columns.map Column.name).length := by simpa using hj
  have hnames : (t.columns.map Column.name)[k] = (t.columns.map Column.name)[j] := by
    simpa using hsame
  have hplaces := (List.Nodup.getElem_inj_iff t.nodup).1 hnames
  omega

/-- The columns of records are those of their fields, place by place. -/
theorem getElem?_columnsOfRecords (records : List (List String)) (k : Nat) (names : List String)
    (j : Nat) : (columnsOfRecords records k names)[j]?
      = (names[j]?).map fun name => ⟨name, .ofFields (transposed records (k + j))⟩ := by
  induction names generalizing k j with
  | nil => rfl
  | cons name names ih =>
    cases j with
    | zero => rfl
    | succ j =>
      rw [columnsOfRecords, List.getElem?_cons_succ, List.getElem?_cons_succ, ih,
        Nat.succ_add_eq_add_succ]

/-- What a table of columns is, if it can be had. -/
theorem eq_of_ofColumns {columns : List Column} {n : Nat}
    {h : ∀ c ∈ columns, c.values.size = n} (ht : ofColumns columns n h = .ok t) :
    t.columns = columns ∧ t.rowCount = if columns.isEmpty then 0 else n := by
  unfold ofColumns at ht
  split at ht
  · cases ht
  · cases ht
    exact ⟨rfl, rfl⟩

/-- There is a column for each header, and a row for each record. -/
theorem eq_of_ofRecords (h : ofRecords headers records = .ok t) :
    t.columns = columnsOfRecords records 0 headers ∧
      (headers ≠ [] → t.rowCount = records.length) := by
  obtain ⟨-, -, h⟩ := bind_eq_ok_iff.1 h
  obtain ⟨hcolumns, hcount⟩ := eq_of_ofColumns h
  refine ⟨hcolumns, fun hne => ?_⟩
  obtain ⟨header, headers, rfl⟩ := List.exists_cons_of_ne_nil hne
  exact hcount

/-- The columns are the headers, each with the fields below it. -/
theorem getElem?_columns_of_ofRecords (h : ofRecords headers records = .ok t) (j : Nat) :
    t.columns[j]? = (headers[j]?).map fun name => ⟨name, .ofFields (transposed records j)⟩ := by
  rw [(eq_of_ofRecords h).1, getElem?_columnsOfRecords, Nat.zero_add]

/-- The column of a header. -/
theorem column_of_ofRecords (h : ofRecords headers records = .ok t)
    (hname : headers[j]? = some name) :
    t.columns[j]? = some ⟨name, .ofFields (transposed records j)⟩ := by
  rw [getElem?_columns_of_ofRecords h, hname]
  rfl

/-- The row of a record has the cell of each of its fields. The column of the header has been made
of the fields at its place, one for each record. -/
theorem cell_of_ofRecords (h : ofRecords headers records = .ok t)
    (hrecord : records[i]? = some record) (hname : headers[j]? = some name)
    (hfield : record[j]? = some field) (hkind : t.kind? name = some kind) :
    t.rows[i]? = some (t.row i) ∧ (t.row i).cell t.columnNames name = kind.cellOf field := by
  have hcolumn := column_of_ofRecords h hname
  have hplace := columnIndex?_of_getElem? hcolumn
  obtain ⟨hi, -⟩ := List.getElem?_eq_some_iff.1 hrecord
  -- The kind of the column is that of its fields.
  obtain rfl : (Values.ofFields (transposed records j)).kind = kind :=
    Option.some.inj ((kind?_eq_some hplace hcolumn).symm.trans hkind)
  constructor
  · have hcount : t.rowCount = records.length := by
      refine (eq_of_ofRecords h).2 ?_
      rintro rfl
      cases hname
    rw [rows, List.getElem?_map, List.getElem?_range (by omega)]
    rfl
  · have hentry : (transposed records j)[i]? = some field := by
      rw [transposed, List.getElem?_map, hrecord, Option.map_some, List.getD_eq_getElem?_getD,
        hfield]
      rfl
    rw [columnIndex?_eq] at hplace
    rw [← Row.getD_eq_cell hplace, getD_row, hcolumn]
    exact Values.get_ofFields hentry

/-- A cell in the column of a name is missing or of the kind of the column. -/
theorem kind?_cell_of_mem_rows {row : Row} (hrow : row ∈ t.rows)
    (hkind : t.kind? name = some kind) :
    row.cell t.columnNames name = .null ∨ (row.cell t.columnNames name).kind? = some kind := by
  obtain ⟨i, hplace⟩ := exists_columnIndex?_of_kind? hkind
  obtain ⟨c, hc, -⟩ := exists_column_of_columnIndex? hplace
  obtain rfl := Option.some.inj ((kind?_eq_some hplace hc).symm.trans hkind)
  obtain ⟨k, hk, rfl⟩ := List.mem_map.1 hrow
  rw [columnIndex?_eq] at hplace
  rw [← Row.getD_eq_cell hplace, getD_row, hc, Option.elim_some]
  rw [← t.size_eq c (List.mem_of_getElem? hc)] at hk
  exact Values.kind?_of_mem_toList (List.mem_map_of_mem hk)

end Table

end Roster
