import Roster.Proofs.Table.Cells

/-!
# `Roster.Proofs.Table.Typing`: what a table of records makes of its fields

Whether a column is one of numbers is not known before its last field has been read: one field that
is no finite numeral makes texts of all the others, those that are numerals included. So a field
alone does not say what its cell is. What does is the field and the kind of its column, `kindAt`,
and the kind is a property of the set of fields of the column (`kindAt_eq_numeric_iff`).

Both make the row of a record, `rowOf`. The rows of a table are those of its records, each by itself
(`rows_of_ofRecords`), and since the kinds do not see the order of the records
(`rowOf_congr_of_perm`), another order of the records is another order of the same rows.

Records are refused for two reasons, `RecordFaultOf`: there is a record of another width, or a
header comes twice. What the fields are is never one.

`ofRecords_keeps_fields` is all of this.
-/

set_option autoImplicit false

namespace Roster

/-- Whether a text is the numeral of a finite number. -/
def Numeral.IsFinite (s : String) : Prop := ∃ x, Numeral.read? s = some x ∧ x.isFinite = true

namespace Cell

variable {field : String}

/-- The cell of a finite numeral is its number. -/
theorem infer_of_read? {x : Double} (hne : field ≠ "") (hread : Numeral.read? field = some x)
    (hfinite : x.isFinite = true) : infer field = .number x := by
  rw [infer, if_neg (by simpa using hne), hread]
  exact if_pos hfinite

/-- The cell of any other field that is not empty is the field. -/
theorem infer_of_not_isFinite (hne : field ≠ "") (hnot : ¬Numeral.IsFinite field) :
    infer field = .text field := by
  rw [infer, if_neg (by simpa using hne)]
  cases hread : Numeral.read? field with
  | none => rfl
  | some x =>
    refine if_neg fun hfinite => ?_
    exact hnot ⟨x, hread, hfinite⟩

/-- A field makes a text exactly if it is not empty and no finite numeral. -/
theorem isNone_text?_infer_iff :
    (infer field).text?.isNone = true ↔ (field ≠ "" → Numeral.IsFinite field) := by
  by_cases hne : field = ""
  · subst hne
    simp [infer, text?]
  by_cases hfinite : Numeral.IsFinite field
  · obtain ⟨x, hread, hx⟩ := hfinite
    rw [infer_of_read? hne hread hx]
    simp [text?, Numeral.IsFinite, hread, hx]
  · rw [infer_of_not_isFinite hne hfinite]
    simp [text?, hne, hfinite]

end Cell

/-- The values of fields are numbers exactly if every field that is not empty is a finite
numeral. -/
theorem Values.kind_ofFields_eq_numeric_iff {fields : List String} :
    (ofFields fields).kind = .numeric
      ↔ ∀ field ∈ fields, field ≠ "" → Numeral.IsFinite field := by
  have hall : (fields.map Cell.infer).all (·.text?.isNone) = true
      ↔ ∀ field ∈ fields, field ≠ "" → Numeral.IsFinite field := by
    simp only [List.all_eq_true, List.forall_mem_map, Cell.isNone_text?_infer_iff]
  rw [← hall, ofFields]
  split
  · rename_i hnumbers
    exact iff_of_true (kind_ofCells _ _) hnumbers
  · rename_i htexts
    exact iff_of_false Kind.noConfusion htexts

namespace Table

variable {t : Table} {headers record : List String} {records records' : List (List String)}
  {name field : String} {i j : Nat} {e : TableError}

/-! ### Kinds of columns -/

/-- Whether all fields at a place that are not empty are finite numerals. -/
def NumericAt (records : List (List String)) (j : Nat) : Prop :=
  ∀ record ∈ records, ∀ field, record[j]? = some field → field ≠ "" → Numeral.IsFinite field

/-- The kind of the column of a place. -/
def kindAt (records : List (List String)) (j : Nat) : Kind :=
  (Values.ofFields (transposed records j)).kind

/-- A column is numeric by the fields that are not empty, wherever they stand. -/
theorem kindAt_eq_numeric_iff : kindAt records j = .numeric ↔ NumericAt records j := by
  rw [kindAt, Values.kind_ofFields_eq_numeric_iff]
  simp only [transposed, List.forall_mem_map, List.getD_eq_getElem?_getD, NumericAt]
  refine forall₂_congr fun record _ => ?_
  cases record[j]? with
  | none =>
    -- A record that is too short adds an empty field to the column, which has no say.
    exact iff_of_true (fun hne => absurd rfl hne) (by simp)
  | some field => simp

/-- The kind of a column does not depend on the order of the records. -/
theorem kindAt_congr_of_perm (h : records'.Perm records) (j : Nat) :
    kindAt records' j = kindAt records j := by
  have hnumeric : kindAt records' j = .numeric ↔ kindAt records j = .numeric := by
    simp only [kindAt_eq_numeric_iff, NumericAt, h.mem_iff]
  cases hkind : kindAt records j <;> cases hkind' : kindAt records' j <;> simp_all

/-- What the cell of a field of a column is: nothing if the field is empty, the number that it
denotes if the column is numeric, and otherwise the field as it is. -/
structure IsCellOf (records : List (List String)) (j : Nat) (field : String) (c : Cell) :
    Prop where
  missing : field = "" → c = .null
  number : field ≠ "" → NumericAt records j →
    ∃ x, Numeral.read? field = some x ∧ x.isFinite = true ∧ c = .number x
  text : field ≠ "" → ¬NumericAt records j → c = .text field

/-- The kind of a column and a field of it make a cell. There is one case for a field that is
missing, one for a number and one for a text. -/
theorem isCellOf_cellOf (hrecord : record ∈ records) (hfield : record[j]? = some field) :
    IsCellOf records j field ((kindAt records j).cellOf field) where
  missing := by
    rintro rfl
    cases kindAt records j <;> rfl
  number := by
    intro hne hnumeric
    obtain ⟨x, hread, hfinite⟩ := hnumeric record hrecord field hfield hne
    rw [kindAt_eq_numeric_iff.2 hnumeric]
    exact ⟨x, hread, hfinite, Cell.infer_of_read? hne hread hfinite⟩
  text := by
    intro hne hnumeric
    have hkind : kindAt records j = .text := by
      cases h : kindAt records j with
      | numeric => exact absurd (kindAt_eq_numeric_iff.1 h) hnumeric
      | text => rfl
    rw [hkind]
    exact if_neg (by simpa using hne)

/-! ### Faults -/

/-- The fault of records that make no table: the first record of another width, counted from one;
if there is none, the first header that is the same as one before it. -/
inductive RecordFaultOf (headers : List String) (records : List (List String)) :
    TableError → Prop where
  | ragged {before after : List (List String)} {record : List String}
      (split : records = before ++ record :: after)
      (width : ∀ r ∈ before, r.length = headers.length) (other : record.length ≠ headers.length) :
      RecordFaultOf headers records (.ragged (before.length + 1) record.length headers.length)
  | duplicate {before after : List String} {name : String}
      (split : headers = before ++ name :: after)
      (width : ∀ record ∈ records, record.length = headers.length) (nodup : before.Nodup)
      (repeated : name ∈ before) : RecordFaultOf headers records (.duplicateColumn name)

/-- The columns of records have the given names in their order. -/
theorem names_columnsOfRecords (records : List (List String)) (j : Nat) (names : List String) :
    (columnsOfRecords records j names).map Column.name = names := by
  induction names generalizing j with
  | nil => rfl
  | cons name names ih => rw [columnsOfRecords, List.map_cons, ih]

/-- Records of the width of different headers make a table, and no others do. -/
theorem exists_ofRecords_iff :
    (∃ t, ofRecords headers records = .ok t)
      ↔ (∀ record ∈ records, record.length = headers.length) ∧ headers.Nodup := by
  simp only [ofRecords, bind_eq_ok_iff, checkWidths_eq_ok_iff, List.forall_mem_map,
    exists_and_left, exists_const]
  rw [exists_ofColumns_iff, names_columnsOfRecords]

/-- The widths are checked, and then the headers. -/
theorem ofRecords_eq_error_iff :
    ofRecords headers records = .error e ↔
      checkWidths headers.length 0 (records.map List.length) = .error e ∨
      (∀ record ∈ records, record.length = headers.length) ∧
        ∃ name, firstRepeated [] headers = some name ∧ e = .duplicateColumn name := by
  simp only [ofRecords, bind_eq_error_iff, checkWidths_eq_ok_iff, List.forall_mem_map,
    exists_const, ofColumns_eq_error_iff, names_columnsOfRecords]

/-- The fault that is reported is the one there is. -/
theorem ofRecords_eq_error_iff_recordFaultOf :
    ofRecords headers records = .error e ↔ RecordFaultOf headers records e := by
  rw [ofRecords_eq_error_iff]
  constructor
  · rintro (hwidths | ⟨hwidth, name, hname, rfl⟩)
    · obtain ⟨before, record, after, hrecords, hbefore, hother, rfl⟩ :=
        checkWidths_map_length_eq_error_iff.1 hwidths
      exact .ragged hrecords hbefore hother
    · obtain ⟨before, after, hheaders, hnodup, hrepeated⟩ := firstRepeated_eq_some_iff.1 hname
      exact .duplicate hheaders hwidth hnodup hrepeated
  · intro h
    cases h with
    | @ragged before after record hrecords hwidth hother =>
      exact .inl (checkWidths_map_length_eq_error_iff.2
        ⟨before, record, after, hrecords, hwidth, hother, rfl⟩)
    | @duplicate before after name hheaders hwidth hnodup hrepeated =>
      exact .inr ⟨hwidth, name,
        firstRepeated_eq_some_iff.2 ⟨before, after, hheaders, hnodup, hrepeated⟩, rfl⟩

/-- Another order of the records does not change which header is reported. -/
theorem duplicateColumn_congr_of_perm (h : records'.Perm records) :
    ofRecords headers records' = .error (.duplicateColumn name)
      ↔ ofRecords headers records = .error (.duplicateColumn name) := by
  have hwidths : ∀ records : List (List String),
      checkWidths headers.length 0 (records.map List.length) ≠ .error (.duplicateColumn name) := by
    intro records hfault
    obtain ⟨_, _, _, _, _, _, hkind⟩ := checkWidths_map_length_eq_error_iff.1 hfault
    cases hkind
  simp only [ofRecords_eq_error_iff, hwidths, false_or, h.mem_iff]

/-! ### Rows -/

/-- The row of a record: the cells of its fields, by the kinds of their columns. -/
def rowOf (width : Nat) (records : List (List String)) (record : List String) : Row :=
  (List.range width).map fun j => (kindAt records j).cellOf (record.getD j default)

/-- A record has its row wherever it stands. -/
theorem rowOf_congr_of_perm (h : records'.Perm records) (width : Nat) :
    rowOf width records' = rowOf width records := by
  funext record
  simp only [rowOf, kindAt_congr_of_perm h]

/-- The columns of a table of records are named by the headers. -/
theorem columnNames_of_ofRecords (h : ofRecords headers records = .ok t) :
    t.columnNames = headers := by
  rw [columnNames, (eq_of_ofRecords h).1, names_columnsOfRecords]

/-- A row of the table is the row of its record. -/
theorem row_of_ofRecords (h : ofRecords headers records = .ok t)
    (hrecord : records[i]? = some record) : t.row i = rowOf headers.length records record := by
  refine List.ext_getElem? fun j => ?_
  rw [row, List.getElem?_map, getElem?_columns_of_ofRecords h, rowOf, List.getElem?_map]
  by_cases hj : j < headers.length
  · have hfield : (transposed records j)[i]? = some (record.getD j default) := by
      rw [transposed, List.getElem?_map, hrecord, Option.map_some]
    rw [List.getElem?_eq_getElem hj, List.getElem?_range hj]
    exact congrArg some (Values.get_ofFields hfield)
  · rw [List.getElem?_eq_none (by omega), List.getElem?_eq_none (by simpa using hj)]
    rfl

/-- The rows of the table are the rows of the records, in their order. -/
theorem rows_of_ofRecords (h : ofRecords headers records = .ok t) (hne : headers ≠ []) :
    t.rows = records.map (rowOf headers.length records) := by
  have hcount := (eq_of_ofRecords h).2 hne
  refine List.ext_getElem (by rw [length_rows, List.length_map, hcount]) fun i _ hi => ?_
  rw [List.length_map] at hi
  rw [List.getElem_map, ← row_of_ofRecords h (List.getElem?_eq_getElem hi)]
  simp [rows]

/-- A field of a record has its cell at the same place of the row. -/
theorem getElem?_rowOf (hrecord : record ∈ records) (hfield : record[j]? = some field) {width : Nat}
    (hwidth : record.length = width) :
    ∃ c, (rowOf width records record)[j]? = some c ∧ IsCellOf records j field c := by
  have hj : j < width := hwidth ▸ (List.getElem?_eq_some_iff.1 hfield).1
  refine ⟨_, ?_, isCellOf_cellOf hrecord hfield⟩
  rw [rowOf, List.getElem?_map, List.getElem?_range hj, Option.map_some,
    List.getD_eq_getElem?_getD, hfield, Option.getD_some]

/-- The kinds of the columns do not depend on the order of the records. -/
theorem schema_congr_of_perm {t' : Table} (h : ofRecords headers records = .ok t)
    (h' : ofRecords headers records' = .ok t') (hperm : records'.Perm records) :
    t'.schema = t.schema := by
  have hkind : ∀ j, (Values.ofFields (transposed records' j)).kind
      = (Values.ofFields (transposed records j)).kind := kindAt_congr_of_perm hperm
  refine List.ext_getElem? fun j => ?_
  simp only [schema, List.getElem?_map, getElem?_columns_of_ofRecords h,
    getElem?_columns_of_ofRecords h', Option.map_map, Function.comp_def, hkind]

/-- A table of records has the headers for names and a row for each record, with a cell for each
field: nothing for an empty one, and for any other the number it denotes if all fields of the column
that are not empty are finite numerals, and the field itself if one of them is not. It can be had
unless a record is of another width or a header comes twice, which is then the fault. In another
order the records make the same rows in that order, and have the same header repeated. -/
theorem ofRecords_keeps_fields (headers : List String) (records : List (List String))
    (hne : headers ≠ []) :
    ((∃ t, ofRecords headers records = .ok t)
      ↔ (∀ record ∈ records, record.length = headers.length) ∧ headers.Nodup) ∧
    (∀ e, ofRecords headers records = .error e ↔ RecordFaultOf headers records e) ∧
    (∀ t, ofRecords headers records = .ok t →
      t.columnNames = headers ∧ t.rowCount = records.length ∧
      (∀ j c, t.columns[j]? = some c → (c.values.kind = .numeric ↔ NumericAt records j)) ∧
      ∀ (i j : Nat) (record : List String) (field : String),
        records[i]? = some record → record[j]? = some field →
        ∃ (row : Row) (c : Cell),
          t.rows[i]? = some row ∧ row[j]? = some c ∧ IsCellOf records j field c) ∧
    ∀ records', records'.Perm records →
      (∀ t, ofRecords headers records = .ok t →
        ∃ t', ofRecords headers records' = .ok t' ∧ t'.schema = t.schema ∧
          ∃ rowOf : List String → Row, t.rows = records.map rowOf ∧ t'.rows = records'.map rowOf) ∧
      ∀ name, ofRecords headers records' = .error (.duplicateColumn name)
        ↔ ofRecords headers records = .error (.duplicateColumn name) := by
  refine ⟨exists_ofRecords_iff, fun e => ofRecords_eq_error_iff_recordFaultOf, ?_, ?_⟩
  · intro t ht
    obtain ⟨hwidth, -⟩ := exists_ofRecords_iff.1 ⟨t, ht⟩
    refine ⟨columnNames_of_ofRecords ht, (eq_of_ofRecords ht).2 hne, ?_, ?_⟩
    · intro j c hc
      rw [getElem?_columns_of_ofRecords ht] at hc
      obtain ⟨name, -, rfl⟩ := Option.map_eq_some_iff.1 hc
      exact kindAt_eq_numeric_iff
    · intro i j record field hrecord hfield
      have hmem := List.mem_of_getElem? hrecord
      obtain ⟨c, hc, hcell⟩ := getElem?_rowOf hmem hfield (hwidth record hmem)
      refine ⟨_, c, ?_, hc, hcell⟩
      rw [rows_of_ofRecords ht hne, List.getElem?_map, hrecord, Option.map_some]
  · -- Widths, headers and the kinds of columns do not depend on the order of the records.
    intro records' hperm
    refine ⟨?_, fun name => duplicateColumn_congr_of_perm hperm⟩
    intro t ht
    have hmake : ∃ t', ofRecords headers records' = .ok t' := by
      rw [exists_ofRecords_iff]
      simpa only [hperm.mem_iff] using exists_ofRecords_iff.1 ⟨t, ht⟩
    obtain ⟨t', ht'⟩ := hmake
    refine ⟨t', ht', schema_congr_of_perm ht ht' hperm, rowOf headers.length records,
      rows_of_ofRecords ht hne, ?_⟩
    rw [rows_of_ofRecords ht' hne, rowOf_congr_of_perm hperm]

/-- One field that is no numeral keeps the numeral above it a text, in either order. -/
theorem ofRecords_keeps_fields_mixed :
    let headers := ["n", "s"]
    let records := [["1", "1"], ["", "x"]]
    headers ≠ [] ∧ ∃ t t', ofRecords headers records = .ok t ∧
      ofRecords headers records.reverse = .ok t' ∧ t.columnNames = headers ∧ t.rowCount = 2 ∧
      t'.schema = t.schema ∧
      (∃ rowOf : List String → Row,
        t.rows = records.map rowOf ∧ t'.rows = records.reverse.map rowOf) ∧
      t.rows = [[.number (Double.ofNat 1), .text "1"], [.null, .text "x"]] := by
  intro headers records
  have hne : headers ≠ [] := by simp [headers]
  obtain ⟨t, ht⟩ : ∃ t, ofRecords headers records = .ok t := ⟨_, rfl⟩
  obtain ⟨-, -, hkeeps, horder⟩ := ofRecords_keeps_fields headers records hne
  obtain ⟨hnames, hcount, -, -⟩ := hkeeps t ht
  obtain ⟨t', ht', hschema, hrows⟩ := (horder _ records.reverse_perm).1 t ht
  refine ⟨hne, t, t', ht, ht', hnames, hcount, hschema, hrows, ?_⟩
  cases ht
  rfl

end Table

end Roster
