import Roster.Proofs.Table.Records

/-!
# `Roster.Proofs.Table.Cells`: which rows of cells make a table, and what is kept of them

Names and rows of cells make a table exactly if they are `WellFormed`: all rows are as wide as there
are names, no column has both numbers and texts, and no name comes twice. If they are not, there is
one fault that is reported, `FaultOf`. The three checks come in this order, each for the whole
input, and each reports the first row or column that fails it, so a later check only has a say if
the earlier ones are passed. `ofCells_eq_ok_iff` and `ofCells_eq_error_iff` take them apart.

The widths and the columns are checked by recursions that count. Both are rewritten as one pass over
entries with their places (`checkWidths_eq_mapM`, `columnsOfCells_eq_mapM`), of which is known how
it fails. The names are compared with those before them, not with their places:
`firstRepeated_append` passes over the names that are new.

A table is stored by columns, so the rows are turned into columns and back, and a column only has
room for cells of its kind. As no column is mixed, nothing is lost: the rows of the table are the
rows that were given (`rows_of_ofCells`). Without names only the number of rows could be kept, and
it is not.

`ofCells_keeps_wellFormed` is all of this.
-/

set_option autoImplicit false

namespace Roster

namespace Cell

/-- A cell has a number if it is of that kind. -/
theorem isSome_number? (c : Cell) : c.number?.isSome = (c.kind? == some .numeric) := by
  cases c <;> rfl

/-- A cell has a text if it is of that kind. -/
theorem isSome_text? (c : Cell) : c.text?.isSome = (c.kind? == some .text) := by
  cases c <;> rfl

end Cell

namespace Values

/-- A cell that is missing or of the kind of its column is kept. -/
theorem get_ofCells {kind : Kind} {cells : List Cell} {i : Nat} {c : Cell} (h : cells[i]? = some c)
    (hkind : c = .null ∨ c.kind? = some kind) : (ofCells kind cells).get i = c := by
  cases kind <;> cases c <;> simp_all [ofCells, get, Cell.kind?, Cell.number?, Cell.text?]

/-- A column of cells has the kind that it is made with. -/
theorem kind_ofCells (kind : Kind) (cells : List Cell) : (ofCells kind cells).kind = kind := by
  cases kind <;> rfl

end Values

namespace Table

variable {t : Table} {names : List String} {name : String} {rows : List Row} {row : Row}
  {c : Cell} {kind : Kind} {i j : Nat} {e : TableError}

/-! ### Columns of cells -/

/-- Whether some row has a cell of a kind at a place. -/
def HasAt (rows : List Row) (j : Nat) (kind : Kind) : Prop :=
  ∃ row ∈ rows, ∃ c, row[j]? = some c ∧ c.kind? = some kind

/-- Whether the rows have both numbers and texts at a place. -/
def MixedAt (rows : List Row) (j : Nat) : Prop := HasAt rows j .numeric ∧ HasAt rows j .text

/-- What is at a place in some row is in the column of the place. A row that is too short adds a
missing cell to it, which is of no kind. -/
theorem hasAt_iff : HasAt rows j kind ↔ ∃ c ∈ transposed rows j, c.kind? = some kind := by
  constructor
  · rintro ⟨row, hrow, c, hc, hkind⟩
    refine ⟨c, List.mem_map.2 ⟨row, hrow, ?_⟩, hkind⟩
    rw [List.getD_eq_getElem?_getD, hc]
    rfl
  · rintro ⟨c, hc, hkind⟩
    obtain ⟨row, hrow, rfl⟩ := List.mem_map.1 hc
    refine ⟨row, hrow, row.getD j default, ?_, hkind⟩
    rw [List.getD_eq_getElem?_getD] at hkind ⊢
    cases hj : row[j]? with
    | none =>
      -- The cell that stands in for the one that is not there has no kind.
      rw [hj] at hkind
      cases hkind
    | some c => rfl

/-- The rows are asked for a kind at a place by asking the column there. -/
theorem any_kind?_iff :
    (transposed rows j).any (·.kind? == some kind) = true ↔ HasAt rows j kind := by
  simp [hasAt_iff]

/-- A column has a kind unless it is mixed. It is one of texts if it has a text. -/
theorem kindOf_transposed_eq_ok_iff :
    kindOf name (transposed rows j) = .ok kind
      ↔ ¬MixedAt rows j ∧ (kind = .text ↔ HasAt rows j .text) := by
  rw [MixedAt, ← any_kind?_iff, ← any_kind?_iff]
  simp only [kindOf, Cell.isSome_number?, Cell.isSome_text?]
  cases (transposed rows j).any (·.kind? == some .numeric) <;>
    cases (transposed rows j).any (·.kind? == some .text) <;> cases kind <;> simp

/-- A mixed column is the fault. -/
theorem kindOf_transposed_eq_error_iff :
    kindOf name (transposed rows j) = .error e ↔ MixedAt rows j ∧ e = .mixedColumn name := by
  rw [MixedAt, ← any_kind?_iff, ← any_kind?_iff]
  simp only [kindOf, Cell.isSome_number?, Cell.isSome_text?]
  cases (transposed rows j).any (·.kind? == some .numeric) <;>
    cases (transposed rows j).any (·.kind? == some .text) <;> simp [eq_comm]

/-- All cells of a column that is not mixed are missing or of its kind. -/
theorem kind?_of_unmixed (hmixed : ¬MixedAt rows j) (hkind : kind = .text ↔ HasAt rows j .text)
    (hc : c ∈ transposed rows j) : c = .null ∨ c.kind? = some kind := by
  cases c with
  | null => exact .inl rfl
  | number x =>
    have hnumber : HasAt rows j .numeric := hasAt_iff.2 ⟨_, hc, rfl⟩
    cases kind with
    | numeric => exact .inr rfl
    | text => exact absurd ⟨hnumber, hkind.1 rfl⟩ hmixed
  | text s =>
    have htext : HasAt rows j .text := hasAt_iff.2 ⟨_, hc, rfl⟩
    rw [hkind.2 htext]
    exact .inr rfl

/-- What is the column of a name and a place: it has the cells at the place, and is one of texts if
there is a text among them. -/
structure IsColumn (rows : List Row) (name : String) (j : Nat) (c : Column) : Prop where
  unmixed : ¬MixedAt rows j
  kind_eq_text_iff : c.values.kind = .text ↔ HasAt rows j .text
  eq : c = ⟨name, .ofCells c.values.kind (transposed rows j)⟩

/-- The column of a name and a place. -/
def columnAt (rows : List Row) (entry : String × Nat) : Except TableError Column :=
  (kindOf entry.1 (transposed rows entry.2)).map fun kind =>
    ⟨entry.1, .ofCells kind (transposed rows entry.2)⟩

/-- A column is made where the cells are of one kind. -/
theorem columnAt_eq_ok_iff {c : Column} :
    columnAt rows (name, j) = .ok c ↔ IsColumn rows name j c := by
  simp only [columnAt, map_eq_ok_iff, kindOf_transposed_eq_ok_iff]
  constructor
  · rintro ⟨kind, ⟨hmixed, hkind⟩, rfl⟩
    have hvalues : (Values.ofCells kind (transposed rows j)).kind = kind := Values.kind_ofCells _ _
    exact ⟨hmixed, by rwa [hvalues], by rw [hvalues]⟩
  · intro h
    exact ⟨c.values.kind, ⟨h.unmixed, h.kind_eq_text_iff⟩, h.eq.symm⟩

/-- It fails where they are of two kinds, and names the column. -/
theorem columnAt_eq_error_iff :
    columnAt rows (name, j) = .error e ↔ MixedAt rows j ∧ e = .mixedColumn name := by
  rw [columnAt, map_eq_error_iff, kindOf_transposed_eq_error_iff]

/-- There is a column at a place unless it is mixed. -/
theorem exists_columnAt_iff : (∃ c, columnAt rows (name, j) = .ok c) ↔ ¬MixedAt rows j := by
  constructor
  · rintro ⟨c, hc⟩
    exact (columnAt_eq_ok_iff.1 hc).unmixed
  · intro hmixed
    cases h : columnAt rows (name, j) with
    | error e => exact absurd (columnAt_eq_error_iff.1 h).1 hmixed
    | ok c => exact ⟨c, rfl⟩

/-- The columns are made one after the other. -/
theorem columnsOfCells_eq_mapM (rows : List Row) (k : Nat) (names : List String) :
    (columnsOfCells rows k names).map Subtype.val = (names.zipIdx k).mapM (columnAt rows) := by
  induction names generalizing k with
  | nil => rfl
  | cons name names ih =>
    rw [List.zipIdx_cons, List.mapM_cons, ← ih, columnsOfCells, columnAt]
    cases kindOf name (transposed rows k) with
    | error e => rfl
    | ok kind => cases columnsOfCells rows (k + 1) names <;> rfl

/-- All columns can be made exactly if none is mixed. -/
theorem forall_exists_columnAt_iff :
    (∀ entry ∈ names.zipIdx, ∃ c, columnAt rows entry = .ok c)
      ↔ ∀ j < names.length, ¬MixedAt rows j := by
  simp only [Prod.forall, List.mk_mem_zipIdx_iff_getElem?, exists_columnAt_iff]
  constructor
  · intro h j hj
    exact h names[j] j (List.getElem?_eq_getElem hj)
  · intro h name j hname
    exact h j (List.getElem?_eq_some_iff.1 hname).1

/-- There are columns at all places unless one of them is mixed. -/
theorem exists_columnsOfCells_iff :
    (∃ columns, columnsOfCells rows 0 names = .ok columns)
      ↔ ∀ j < names.length, ¬MixedAt rows j := by
  rw [← forall_exists_columnAt_iff, ← exists_mapM_eq_ok_iff, ← columnsOfCells_eq_mapM]
  simp only [map_eq_ok_iff]
  constructor
  · rintro ⟨columns, h⟩
    exact ⟨_, columns, h, rfl⟩
  · rintro ⟨_, columns, h, -⟩
    exact ⟨columns, h⟩

/-- The first column that is mixed is the fault. -/
theorem columnsOfCells_eq_error_iff :
    columnsOfCells rows 0 names = .error e ↔ ∃ before name after, names = before ++ name :: after ∧
      (∀ j < before.length, ¬MixedAt rows j) ∧ MixedAt rows before.length ∧
      e = .mixedColumn name := by
  rw [← map_eq_error_iff (f := Subtype.val), columnsOfCells_eq_mapM]
  simp only [mapM_zipIdx_eq_error_iff, forall_exists_columnAt_iff, columnAt_eq_error_iff,
    Nat.zero_add]

variable {columns : { columns : List Column // ∀ c ∈ columns, c.values.size = rows.length }}

/-- Each column that is made is the one of its name and place. -/
theorem forall₂_of_columnsOfCells (h : columnsOfCells rows 0 names = .ok columns) :
    List.Forall₂ (fun entry c => IsColumn rows entry.1 entry.2 c) names.zipIdx columns.1 := by
  have hcolumns : names.zipIdx.mapM (columnAt rows) = .ok columns.1 := by
    rw [← columnsOfCells_eq_mapM, h]
    rfl
  exact (mapM_eq_ok_iff.1 hcolumns).imp fun _ _ hc => columnAt_eq_ok_iff.1 hc

/-- The columns have the names, in their order. -/
theorem names_of_columnsOfCells (h : columnsOfCells rows 0 names = .ok columns) :
    columns.1.map Column.name = names := by
  have hnames : List.Forall₂ (fun name name' => name = name') (names.zipIdx.map Prod.fst)
      (columns.1.map Column.name) := by
    rw [List.forall₂_map_left_iff, List.forall₂_map_right_iff]
    refine (forall₂_of_columnsOfCells h).imp ?_
    intro entry c hc
    rw [hc.eq]
  rw [List.forall₂_eq_eq_eq, List.zipIdx_map_fst] at hnames
  exact hnames.symm

/-! ### Names -/

/-- New names are passed over and are seen from then on. -/
theorem firstRepeated_append {seen before : List String} (hnodup : before.Nodup)
    (hseen : ∀ n ∈ before, n ∉ seen) (rest : List String) :
    firstRepeated seen (before ++ rest) = firstRepeated (before.reverse ++ seen) rest := by
  induction before generalizing seen with
  | nil => rfl
  | cons n before ih =>
    obtain ⟨hn, hnodup⟩ := List.nodup_cons.1 hnodup
    obtain ⟨hnew, hseen⟩ := List.forall_mem_cons.1 hseen
    have hseen' : ∀ m ∈ before, m ∉ n :: seen := by
      intro m hm hm'
      rcases List.mem_cons.1 hm' with rfl | hm'
      · exact hn hm
      · exact hseen m hm hm'
    rw [List.cons_append, firstRepeated, if_neg hnew, ih hnodup hseen', List.reverse_cons,
      List.append_assoc]
    rfl

/-- Before the name that is found there are only new names, and it is one of these or of those seen
before. -/
theorem exists_split_of_firstRepeated {seen : List String}
    (h : firstRepeated seen names = some name) : ∃ before after, names = before ++ name :: after ∧
      before.Nodup ∧ (∀ n ∈ before, n ∉ seen) ∧ (name ∈ seen ∨ name ∈ before) := by
  induction names generalizing seen with
  | nil => cases h
  | cons n names ih =>
    rw [firstRepeated] at h
    split at h
    · rename_i hmem
      cases h
      exact ⟨[], names, rfl, List.nodup_nil, by simp, .inl hmem⟩
    · rename_i hnew
      obtain ⟨before, after, rfl, hnodup, hseen, hname⟩ := ih h
      refine ⟨n :: before, after, rfl, ?_, ?_, ?_⟩
      · exact List.nodup_cons.2 ⟨fun hn => hseen n hn List.mem_cons_self, hnodup⟩
      · exact List.forall_mem_cons.2
          ⟨hnew, fun m hm hm' => hseen m hm (List.mem_cons_of_mem n hm')⟩
      · -- A name seen before is one of those seen earlier or the one just added.
        simp only [List.mem_cons] at hname ⊢
        tauto

/-- The first name that is the same as one before it. -/
theorem firstRepeated_eq_some_iff :
    firstRepeated [] names = some name ↔ ∃ before after, names = before ++ name :: after ∧
      before.Nodup ∧ name ∈ before := by
  constructor
  · intro h
    obtain ⟨before, after, hnames, hnodup, -, hname⟩ := exists_split_of_firstRepeated h
    exact ⟨before, after, hnames, hnodup, by simpa using hname⟩
  · rintro ⟨before, after, rfl, hnodup, hname⟩
    rw [firstRepeated_append hnodup (by simp), firstRepeated, if_pos (by simpa using hname)]

/-- There is no such name if the names are different. -/
theorem firstRepeated_eq_none_iff : firstRepeated [] names = none ↔ names.Nodup := by
  constructor
  · intro h
    exact (nodup_of_firstRepeated h).1
  · intro hnodup
    rw [← List.append_nil names, firstRepeated_append hnodup (by simp)]
    rfl

/-- Columns make a table if no two of them have a name. -/
theorem exists_ofColumns_iff {columns : List Column} {n : Nat}
    {hsize : ∀ c ∈ columns, c.values.size = n} :
    (∃ t, ofColumns columns n hsize = .ok t) ↔ (columns.map Column.name).Nodup := by
  rw [← firstRepeated_eq_none_iff, ofColumns]
  split <;> simp [*]

/-- Otherwise the first name that comes again is reported. -/
theorem ofColumns_eq_error_iff {columns : List Column} {n : Nat}
    {hsize : ∀ c ∈ columns, c.values.size = n} :
    ofColumns columns n hsize = .error e ↔ ∃ name,
      firstRepeated [] (columns.map Column.name) = some name ∧ e = .duplicateColumn name := by
  rw [ofColumns]
  split
  · rename_i name hname
    simp only [hname, Except.error.injEq, Option.some.injEq, exists_eq_left', eq_comm]
  · rename_i hnone
    simp [hnone]

/-! ### Widths -/

/-- Checks the width of a row at a place. -/
def checkWidth (expected : Nat) (entry : Nat × Nat) : Except TableError Unit :=
  if entry.1 = expected then .ok () else .error (.ragged (entry.2 + 1) entry.1 expected)

/-- The widths are checked one after the other. -/
theorem checkWidths_eq_mapM (expected above : Nat) (widths : List Nat) :
    checkWidths expected above widths
      = ((widths.zipIdx above).mapM (checkWidth expected)).map fun _ => () := by
  induction widths generalizing above with
  | nil => rfl
  | cons width widths ih =>
    rw [List.zipIdx_cons, List.mapM_cons, checkWidths, checkWidth]
    split
    · -- The results are units, so nothing but the faults is left of the rest.
      rw [ih]
      show _ = Except.map _ ((widths.zipIdx (above + 1)).mapM (checkWidth expected) >>= _)
      cases (widths.zipIdx (above + 1)).mapM (checkWidth expected) <;> rfl
    · rfl

/-- A row passes if it is as wide as expected. -/
theorem exists_checkWidth_iff {expected : Nat} {entry : Nat × Nat} :
    (∃ y, checkWidth expected entry = .ok y) ↔ entry.1 = expected := by
  rw [checkWidth]
  split <;> simp [*]

/-- Otherwise the row is reported, counted from one, with both widths. -/
theorem checkWidth_eq_error_iff {expected : Nat} {entry : Nat × Nat} :
    checkWidth expected entry = .error e
      ↔ entry.1 ≠ expected ∧ e = .ragged (entry.2 + 1) entry.1 expected := by
  rw [checkWidth]
  split
  · rename_i hwidth
    simp [hwidth]
  · rename_i hwidth
    rw [Except.error.injEq, and_iff_right hwidth, eq_comm]

/-- No width is faulty if all are as expected, wherever they are. -/
theorem forall_exists_checkWidth_iff {expected k : Nat} {widths : List Nat} :
    (∀ entry ∈ widths.zipIdx k, ∃ y, checkWidth expected entry = .ok y)
      ↔ ∀ width ∈ widths, width = expected := by
  simp only [exists_checkWidth_iff]
  conv_rhs => rw [← List.zipIdx_map_fst k widths, List.forall_mem_map]

/-- Rows pass if each of them does. -/
theorem checkWidths_eq_ok_iff {expected : Nat} {widths : List Nat} {u : Unit} :
    checkWidths expected 0 widths = .ok u ↔ ∀ width ∈ widths, width = expected := by
  rw [checkWidths_eq_mapM, map_eq_ok_iff, ← forall_exists_checkWidth_iff (k := 0),
    ← exists_mapM_eq_ok_iff]
  simp

/-- The first row of another width is the fault. -/
theorem checkWidths_eq_error_iff {expected : Nat} {widths : List Nat} :
    checkWidths expected 0 widths = .error e ↔ ∃ before width after,
      widths = before ++ width :: after ∧ (∀ w ∈ before, w = expected) ∧ width ≠ expected ∧
      e = .ragged (before.length + 1) width expected := by
  simp only [checkWidths_eq_mapM, map_eq_error_iff, mapM_zipIdx_eq_error_iff,
    forall_exists_checkWidth_iff, checkWidth_eq_error_iff, Nat.zero_add]

/-- The first row of another width is the fault, whatever is in the rows. -/
theorem checkWidths_map_length_eq_error_iff {α : Type} {expected : Nat} {rows : List (List α)} :
    checkWidths expected 0 (rows.map List.length) = .error e ↔ ∃ before row after,
      rows = before ++ row :: after ∧ (∀ r ∈ before, r.length = expected) ∧
      row.length ≠ expected ∧ e = .ragged (before.length + 1) row.length expected := by
  rw [checkWidths_eq_error_iff]
  constructor
  · rintro ⟨_, _, _, hrows, hbefore, hother, rfl⟩
    obtain ⟨before, rest, rfl, rfl, hrest⟩ := List.map_eq_append_iff.1 hrows
    obtain ⟨row, after, rfl, rfl, -⟩ := List.map_eq_cons_iff.1 hrest
    rw [List.length_map]
    exact ⟨before, row, after, rfl, List.forall_mem_map.1 hbefore, hother, rfl⟩
  · rintro ⟨before, row, after, rfl, hbefore, hother, rfl⟩
    refine ⟨before.map List.length, row.length, after.map List.length, ?_,
      List.forall_mem_map.2 hbefore, hother, ?_⟩
    · rw [List.map_append, List.map_cons]
    · rw [List.length_map]

/-! ### Tables of cells -/

/-- Names and rows that make a table. -/
structure WellFormed (names : List String) (rows : List Row) : Prop where
  width : ∀ row ∈ rows, row.length = names.length
  unmixed : ∀ j < names.length, ¬MixedAt rows j
  nodup : names.Nodup

/-- The fault of names and rows that make no table: the first row of another width, counted from
one; if there is none, the name of the first column that is mixed; and if there is none either, the
first name that is the same as one before it. -/
inductive FaultOf (names : List String) (rows : List Row) : TableError → Prop where
  | ragged {before after : List Row} {row : Row} (split : rows = before ++ row :: after)
      (width : ∀ r ∈ before, r.length = names.length) (other : row.length ≠ names.length) :
      FaultOf names rows (.ragged (before.length + 1) row.length names.length)
  | mixed {before after : List String} {name : String} (split : names = before ++ name :: after)
      (width : ∀ row ∈ rows, row.length = names.length)
      (unmixed : ∀ j < before.length, ¬MixedAt rows j) (mixed : MixedAt rows before.length) :
      FaultOf names rows (.mixedColumn name)
  | duplicate {before after : List String} {name : String}
      (split : names = before ++ name :: after)
      (width : ∀ row ∈ rows, row.length = names.length)
      (unmixed : ∀ j < names.length, ¬MixedAt rows j) (nodup : before.Nodup)
      (repeated : name ∈ before) : FaultOf names rows (.duplicateColumn name)

/-- The widths are checked, then the columns, and then the names. -/
theorem ofCells_eq_ok_iff :
    ofCells names rows = .ok t ↔ (∀ row ∈ rows, row.length = names.length) ∧
      ∃ columns, columnsOfCells rows 0 names = .ok columns ∧
        ofColumns columns.1 rows.length columns.2 = .ok t := by
  rw [ofCells, bind_eq_ok_iff]
  simp only [checkWidths_eq_ok_iff, List.forall_mem_map, bind_eq_ok_iff]
  simp

/-- The widths are checked, then the columns, and then the names. -/
theorem ofCells_eq_error_iff :
    ofCells names rows = .error e ↔
      checkWidths names.length 0 (rows.map List.length) = .error e ∨
      (∀ row ∈ rows, row.length = names.length) ∧
        (columnsOfCells rows 0 names = .error e ∨
        ∃ columns, columnsOfCells rows 0 names = .ok columns ∧
          ofColumns columns.1 rows.length columns.2 = .error e) := by
  rw [ofCells, bind_eq_error_iff]
  simp only [checkWidths_eq_ok_iff, List.forall_mem_map, bind_eq_error_iff]
  simp

/-- Well-formed names and rows make a table, and no others do. -/
theorem exists_ofCells_iff : (∃ t, ofCells names rows = .ok t) ↔ WellFormed names rows := by
  constructor
  · rintro ⟨t, ht⟩
    obtain ⟨hwidth, columns, hcolumns, ht⟩ := ofCells_eq_ok_iff.1 ht
    have hnodup := exists_ofColumns_iff.1 ⟨t, ht⟩
    rw [names_of_columnsOfCells hcolumns] at hnodup
    exact ⟨hwidth, exists_columnsOfCells_iff.1 ⟨columns, hcolumns⟩, hnodup⟩
  · intro h
    obtain ⟨columns, hcolumns⟩ := exists_columnsOfCells_iff.2 h.unmixed
    have hnodup : (columns.1.map Column.name).Nodup := by
      rw [names_of_columnsOfCells hcolumns]
      exact h.nodup
    obtain ⟨t, ht⟩ := exists_ofColumns_iff.2 hnodup
    exact ⟨t, ofCells_eq_ok_iff.2 ⟨h.width, columns, hcolumns, ht⟩⟩

/-- The fault that is reported is the one there is. -/
theorem ofCells_eq_error_iff_faultOf : ofCells names rows = .error e ↔ FaultOf names rows e := by
  rw [ofCells_eq_error_iff]
  constructor
  · -- Widths are checked first, then the kinds of columns, then their names.
    rintro (hwidths | ⟨hwidth, hcolumns | ⟨columns, hcolumns, ht⟩⟩)
    · obtain ⟨before, row, after, hrows, hbefore, hother, rfl⟩ :=
        checkWidths_map_length_eq_error_iff.1 hwidths
      exact .ragged hrows hbefore hother
    · obtain ⟨before, name, after, hnames, hunmixed, hmixed, rfl⟩ :=
        columnsOfCells_eq_error_iff.1 hcolumns
      exact .mixed hnames hwidth hunmixed hmixed
    · obtain ⟨name, hname, rfl⟩ := ofColumns_eq_error_iff.1 ht
      rw [names_of_columnsOfCells hcolumns] at hname
      obtain ⟨before, after, hnames, hnodup, hrepeated⟩ := firstRepeated_eq_some_iff.1 hname
      exact .duplicate hnames hwidth (exists_columnsOfCells_iff.1 ⟨columns, hcolumns⟩) hnodup
        hrepeated
  · intro h
    cases h with
    | @ragged before after row hrows hwidth hother =>
      exact .inl (checkWidths_map_length_eq_error_iff.2
        ⟨before, row, after, hrows, hwidth, hother, rfl⟩)
    | @mixed before after name hnames hwidth hunmixed hmixed =>
      exact .inr ⟨hwidth, .inl (columnsOfCells_eq_error_iff.2
        ⟨before, name, after, hnames, hunmixed, hmixed, rfl⟩)⟩
    | @duplicate before after name hnames hwidth hunmixed hnodup hrepeated =>
      obtain ⟨columns, hcolumns⟩ := exists_columnsOfCells_iff.2 hunmixed
      refine .inr ⟨hwidth, .inr ⟨columns, hcolumns, ofColumns_eq_error_iff.2 ⟨name, ?_, rfl⟩⟩⟩
      rw [names_of_columnsOfCells hcolumns]
      exact firstRepeated_eq_some_iff.2 ⟨before, after, hnames, hnodup, hrepeated⟩

/-! ### What is kept -/

/-- The columns of a table are those of its names and places. -/
theorem isColumn_of_ofCells (h : ofCells names rows = .ok t) {c : Column}
    (hc : t.columns[j]? = some c) : ∃ name, names[j]? = some name ∧ IsColumn rows name j c := by
  obtain ⟨-, columns, hcolumns, ht⟩ := ofCells_eq_ok_iff.1 h
  rw [(eq_of_ofColumns ht).1] at hc
  have hall := forall₂_of_columnsOfCells hcolumns
  obtain ⟨hj, rfl⟩ := List.getElem?_eq_some_iff.1 hc
  have hj' : j < names.zipIdx.length := hall.length_eq ▸ hj
  have hcolumn := hall.get hj' hj
  rw [List.get_eq_getElem, List.get_eq_getElem, List.getElem_zipIdx, Nat.zero_add] at hcolumn
  rw [List.length_zipIdx] at hj'
  exact ⟨names[j], List.getElem?_eq_getElem hj', hcolumn⟩

/-- The columns of a table of cells have the given names in their order. -/
theorem columnNames_of_ofCells (h : ofCells names rows = .ok t) : t.columnNames = names := by
  obtain ⟨-, columns, hcolumns, ht⟩ := ofCells_eq_ok_iff.1 h
  rw [columnNames, (eq_of_ofColumns ht).1, names_of_columnsOfCells hcolumns]

/-- A table of cells has as many rows as were given, if it has a column to count them in. -/
theorem rowCount_of_ofCells (h : ofCells names rows = .ok t) (hne : names ≠ []) :
    t.rowCount = rows.length := by
  obtain ⟨-, columns, hcolumns, ht⟩ := ofCells_eq_ok_iff.1 h
  rw [(eq_of_ofColumns ht).2, if_neg]
  intro hempty
  apply hne
  rw [← names_of_columnsOfCells hcolumns, List.isEmpty_iff.1 hempty]
  rfl

/-- A column keeps the cell of each row. -/
theorem IsColumn.get_eq {column : Column} (h : IsColumn rows name j column)
    (hrow : rows[i]? = some row) (hc : row[j]? = some c) : column.values.get i = c := by
  have hcell : (transposed rows j)[i]? = some c := by
    rw [transposed, List.getElem?_map, hrow, Option.map_some, List.getD_eq_getElem?_getD, hc]
    rfl
  rw [h.eq]
  exact Values.get_ofCells hcell
    (kind?_of_unmixed h.unmixed h.kind_eq_text_iff (List.mem_of_getElem? hcell))

/-- A table keeps its rows, cell for cell. The cells are compared place by place, and neither side
has more of them than the table has columns. -/
theorem row_of_ofCells (h : ofCells names rows = .ok t) (hrow : rows[i]? = some row) :
    t.row i = row := by
  have hwidth : row.length = t.columns.length := by
    have hnames := congrArg List.length (columnNames_of_ofCells h)
    rw [columnNames, List.length_map] at hnames
    rw [(ofCells_eq_ok_iff.1 h).1 row (List.mem_of_getElem? hrow), hnames]
  refine List.ext_getElem? fun j => ?_
  rw [Table.row, List.getElem?_map]
  cases hc : t.columns[j]? with
  | none =>
    -- The row is as wide as the table, so it ends here too.
    rw [List.getElem?_eq_none_iff] at hc
    rw [List.getElem?_eq_none (hwidth ▸ hc)]
    rfl
  | some column =>
    obtain ⟨name, -, hcolumn⟩ := isColumn_of_ofCells h hc
    obtain ⟨hj, -⟩ := List.getElem?_eq_some_iff.1 hc
    have hcell : row[j]? = some row[j] := List.getElem?_eq_getElem (hwidth ▸ hj)
    rw [hcell, Option.map_some, hcolumn.get_eq hrow hcell]

/-- The rows of a table are those it is made of. -/
theorem rows_of_ofCells (h : ofCells names rows = .ok t) (hne : names ≠ []) : t.rows = rows := by
  have hcount := rowCount_of_ofCells h hne
  refine List.ext_getElem (by rw [length_rows, hcount]) fun i _ hi => ?_
  rw [← row_of_ofCells h (List.getElem?_eq_getElem hi)]
  simp [Table.rows]

/-- Names and rows of cells make a table exactly if they are well-formed, and otherwise their fault
is reported. The table has the names and, unless there are none, the rows, and a column of it is one
of texts exactly if a row has a text there. -/
theorem ofCells_keeps_wellFormed (names : List String) (rows : List Row) :
    ((∃ t, ofCells names rows = .ok t) ↔ WellFormed names rows) ∧
    (∀ e, ofCells names rows = .error e ↔ FaultOf names rows e) ∧
    ∀ t, ofCells names rows = .ok t →
      t.columnNames = names ∧
      (names ≠ [] → t.rows = rows ∧ t.rowCount = rows.length) ∧
      ∀ j c, t.columns[j]? = some c → (c.values.kind = .text ↔ HasAt rows j .text) := by
  refine ⟨exists_ofCells_iff, fun e => ofCells_eq_error_iff_faultOf, ?_⟩
  intro t ht
  refine ⟨columnNames_of_ofCells ht, ?_, ?_⟩
  · intro hne
    exact ⟨rows_of_ofCells ht hne, rowCount_of_ofCells ht hne⟩
  · intro j c hc
    obtain ⟨name, -, hcolumn⟩ := isColumn_of_ofCells ht hc
    exact hcolumn.kind_eq_text_iff

/-- An empty text, a number that is none, and a column without cells. -/
theorem ofCells_keeps_wellFormed_missing :
    let names := ["s", "n", "none"]
    let rows : List Row :=
      [[.text "", .number (Double.nan true), .null], [.null, .number .zero, .null]]
    ∃ t, ofCells names rows = .ok t ∧ names ≠ [] ∧ t.columnNames = names ∧
      (t.rows = rows ∧ t.rowCount = rows.length) ∧
      ∀ j c, t.columns[j]? = some c → (c.values.kind = .text ↔ HasAt rows j .text) := by
  intro names rows
  obtain ⟨t, ht⟩ : ∃ t, ofCells names rows = .ok t := ⟨_, rfl⟩
  have hne : names ≠ [] := by simp [names]
  obtain ⟨hnames, hrows, hkinds⟩ := (ofCells_keeps_wellFormed names rows).2.2 t ht
  exact ⟨t, ht, hne, hnames, hrows hne, hkinds⟩

end Table

end Roster
