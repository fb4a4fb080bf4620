import Roster.Proofs.Number.Rounding
import Roster.Proofs.Query.Binding
import Roster.Proofs.Table.Ordering
import Roster.Proofs.Table.Typing

/-!
# `Roster.Proofs.Query.Comparing`: how cells compare with a value

A test compares the cell of a row with the value that it is written with, and all six relations ask
for the same comparison: `Cell.against` is its outcome, none for a cell that is missing, and a test
is passed if its relation holds of it (`exists_test_of_isValue`). So what the relations have to do
with each other is a matter of the four outcomes alone (`Relation.consistent_holds`), and `between`
is two of them (`Test.passes_between`).

Sorting compares by another order: it tells the two zeros apart, and has a place for what is not a
number. `Double.key_mono` says that the places of the total order are in the order of the values;
texts are compared in one way only. So of two cells the one that is sorted first compares no greater
with any value (`Cell.below_of_order`), unless it is not a number. `Table.NaNFree` rules that out;
tables of records have only finite numbers (`Table.nanFree_of_ofRecords`).
-/

set_option autoImplicit false

namespace Roster

/-! ### Relations -/

namespace Relation

/-- What the tests by the six relations with one value have to do with each other: `keep r` is
whether a row passes the test by `r`, and `missing` whether it has no cell to be tested. -/
structure Consistent (keep : Relation → Bool) (missing : Bool) : Prop where
  exactly_one : missing = false → ∃! r, r ∈ [less, equal, greater] ∧ keep r = true
  greaterEqual_iff : keep greaterEqual = true ↔ keep greater = true ∨ keep equal = true
  lessEqual_iff : keep lessEqual = true ↔ keep less = true ∨ keep equal = true
  notEqual_iff : keep notEqual = true ↔ ¬keep equal = true
  of_missing : missing = true → ∀ r, keep r = true ↔ r = notEqual

/-- The relation `<=` holds of the outcomes of a comparison that are less or equal. -/
theorem lessEqual_holds (o : Ordering) : lessEqual.holds (some o) = o.isLE := by
  cases o <;> rfl

/-- The relation `>=` holds of the outcomes that are greater or equal. -/
theorem greaterEqual_holds (o : Ordering) : greaterEqual.holds (some o) = o.isGE := by
  cases o <;> rfl

/-- The relations are consistent on every outcome of a comparison. -/
theorem consistent_holds (o : Option Ordering) :
    Consistent (fun r => r.holds o) o.isNone where
  exactly_one hthere := by
    cases o with
    | none => cases hthere
    | some o =>
      -- The relation that holds is named by the outcome.
      have houtcome : ∀ o : Ordering, ∃ r ∈ [less, equal, greater],
          ∀ r' ∈ [less, equal, greater], r'.holds (some o) = true ↔ r' = r := by decide
      obtain ⟨r, hr, hone⟩ := houtcome o
      exact ⟨r, ⟨hr, (hone r hr).2 rfl⟩, fun r' hr' => (hone r' hr'.1).1 hr'.2⟩
  greaterEqual_iff := by simp [holds]
  lessEqual_iff := by simp [holds]
  notEqual_iff := by simp [holds]
  of_missing hmissing r := by
    obtain rfl := Option.isNone_iff_eq_none.1 hmissing
    cases r <;> simp [holds]

/-- What the tests by the relations with one value have to do with each other on two rows: what
passes for being low passes on the lower row if it does on the higher one, and the other way round
what passes for being high. -/
structure Below (low high : Relation → Bool) : Prop where
  less : high less = true → low less = true
  lessEqual : high lessEqual = true → low lessEqual = true
  greater : low greater = true → high greater = true
  greaterEqual : low greaterEqual = true → high greaterEqual = true

/-- What is no greater than another thing compares no greater with any third. -/
theorem below_of_isLE {α : Type} {cmp : α → α → Ordering} [Std.TransCmp cmp] {a b : α}
    (h : (cmp a b).isLE = true) (v : α) :
    Below (fun r => r.holds (some (cmp a v))) (fun r => r.holds (some (cmp b v))) where
  less hb := by
    have hlt : cmp b v = .lt := by simpa [holds] using hb
    simp [holds, Std.TransCmp.lt_of_isLE_of_lt h hlt]
  lessEqual hb := by
    rw [lessEqual_holds] at hb ⊢
    exact Std.TransCmp.isLE_trans h hb
  greater ha := by
    have hgt : cmp a v = .gt := by simpa [holds] using ha
    simp [holds, Std.TransCmp.gt_of_isGE_of_gt (Std.OrientedCmp.isGE_iff_isLE.2 h) hgt]
  greaterEqual ha := by
    rw [greaterEqual_holds] at ha ⊢
    exact Std.TransCmp.isGE_trans (Std.OrientedCmp.isGE_iff_isLE.2 h) ha

end Relation

/-! ### Numbers -/

namespace Double

variable {x y a b : Double}

/-- The total order has numbers in the order of their values: it only tells the two zeros apart. -/
theorem key_mono (h : x.totalKey ≤ y.totalKey) : x.key ≤ y.key := by
  unfold totalKey at h
  unfold key
  -- Below zero the total order is one step lower, which is the step between the zeros.
  cases hx : x.negative <;> cases hy : y.negative <;>
    simp only [hx, hy, Bool.false_eq_true, reduceIte] at h ⊢ <;> omega

/-- Two numbers are compared by their places on the line. -/
theorem compare?_of_not_nan (hx : x.isNaN = false) (hy : y.isNaN = false) :
    x.compare? y = some (compare x.key y.key) := by
  simp [compare?, hx, hy]

/-- What is not a number is compared with nothing. -/
theorem compare?_eq_none (h : x.isNaN = true ∨ y.isNaN = true) : x.compare? y = none := by
  rcases h with h | h <;> simp [compare?, h]

/-- `x ≤ y` is the same comparison, seen from either side. -/
theorem le_eq_holds (x y : Double) :
    x.le y = Relation.lessEqual.holds (x.compare? y) ∧
      x.le y = Relation.greaterEqual.holds (y.compare? x) := by
  by_cases h : x.isNaN = false ∧ y.isNaN = false
  · obtain ⟨hx, hy⟩ := h
    have hplaces : x.le y = (compare x.key y.key).isLE := by
      rw [Bool.eq_iff_iff, Int.isLE_compare]
      simp [le, hx, hy]
    have hturned : (compare y.key x.key).isGE = (compare x.key y.key).isLE := by
      rw [Bool.eq_iff_iff, Std.OrientedCmp.isGE_iff_isLE]
    rw [compare?_of_not_nan hx hy, compare?_of_not_nan hy hx, Relation.lessEqual_holds,
      Relation.greaterEqual_holds, hplaces, hturned]
    exact ⟨rfl, rfl⟩
  · -- Nothing is compared with what is not a number, and no relation but `!=` holds of it.
    have hnan : x.isNaN = true ∨ y.isNaN = true := by
      cases hx : x.isNaN <;> cases hy : y.isNaN <;> simp_all
    rw [compare?_eq_none hnan, compare?_eq_none hnan.symm]
    rcases hnan with hnan | hnan <;> simp [le, hnan, Relation.holds]

/-- Nothing is between two numbers in the wrong order. -/
theorem le_and_le_of_gt (h : a.compare? b = some .gt) (x : Double) :
    (a.le x && x.le b) = false := by
  by_cases hnan : a.isNaN = true ∨ b.isNaN = true
  · rw [compare?_eq_none hnan] at h
    cases h
  · simp only [not_or, Bool.not_eq_true] at hnan
    rw [compare?_of_not_nan hnan.1 hnan.2, Option.some.injEq, Int.compare_eq_gt] at h
    by_contra hbetween
    simp only [le, Bool.not_eq_false, Bool.and_eq_true, decide_eq_true_eq] at hbetween
    omega

end Double

/-- A cell is between two numbers if it is at least the one and at most the other. -/
theorem Test.passes_between (min max : Double) (c : Cell) :
    (between min max).passes c
      = ((number .greaterEqual min).passes c && (number .lessEqual max).passes c) := by
  cases c with
  | number x =>
    show (min.le x && x.le max) = _
    rw [(Double.le_eq_holds min x).2, (Double.le_eq_holds x max).1]
    rfl
  | _ => rfl

/-! ### Cells and values -/

/-- Whether a literal is a single value of a kind. A number that is none is no value. -/
inductive Literal.IsValue : Literal → Kind → Prop
  | number {n : Double} (h : n.isNaN = false) : IsValue (.number n) .numeric
  | text (s : String) : IsValue (.text s) .text

namespace Cell

variable {a b c : Cell} {v : Literal} {kind : Kind}

/-- Whether a cell has a value of a kind. A number that is none is no value. -/
inductive IsValue : Cell → Kind → Prop
  | number {x : Double} (h : x.isNaN = false) : IsValue (.number x) .numeric
  | text (s : String) : IsValue (.text s) .text

/-- How a cell compares with a literal; none if one of them has no value or they are of different
kinds. -/
def against (v : Literal) (c : Cell) : Option Ordering :=
  match v, c with
  | .number n, number x => x.compare? n
  | .text s, text s' => some (compareText s' s)
  | _, _ => none

/-- A cell that may be missing compares with a value unless it is. -/
theorem isNone_against (hv : v.IsValue kind) (hc : c = .null ∨ c.IsValue kind) :
    (c.against v).isNone = c.isNull := by
  rcases hc with rfl | hc
  · cases v <;> rfl
  · cases hv with
    | number hn =>
      cases hc with
      | number hx => simp [against, isNull, Double.compare?_of_not_nan hx hn]
    | text s =>
      cases hc
      rfl

/-- Of two cells the one that is sorted first compares no greater with a value. A sort compares
places in the total order of doubles and a test compares values, but the values follow the
places. -/
theorem below_of_order (hv : v.IsValue kind) (ha : a.IsValue kind) (hb : b.IsValue kind)
    (h : (a.order b).isLE = true) :
    Relation.Below (fun r => r.holds (a.against v)) (fun r => r.holds (b.against v)) := by
  cases hv with
  | @number n hn =>
    cases ha with
    | @number x hx =>
      cases hb with
      | @number y hy =>
        -- The sort compares the places of the total order, the test those on the line.
        have hplaces : x.key ≤ y.key := Double.key_mono (Int.isLE_compare.1 h)
        simp only [against, Double.compare?_of_not_nan hx hn, Double.compare?_of_not_nan hy hn]
        exact Relation.below_of_isLE (Int.isLE_compare.2 hplaces) n.key
  | text s =>
    cases ha
    cases hb
    simp only [order, against, compareText_eq_compare] at h ⊢
    exact Relation.below_of_isLE h s

end Cell

/-- A comparison by a relation with a value is a test of cells of its kind, and a cell passes it if
the relation holds of how it compares. -/
theorem exists_test_of_isValue {v : Literal} {kind : Kind} (hv : v.IsValue kind) (name : String)
    (r : Relation) :
    ∃ test : Test, Predicate.resolve ⟨name, .relation r, v⟩ = .ok ⟨name, test⟩ ∧
      test.kind = kind ∧
      ∀ c : Cell, c = .null ∨ c.kind? = some kind → test.passes c = r.holds (c.against v) := by
  cases hv with
  | @number n hn =>
    refine ⟨.number r n, rfl, rfl, ?_⟩
    intro c hc
    cases c with
    | null => cases r <;> rfl
    | number x => rfl
    | text s => simp [Cell.kind?] at hc
  | text s =>
    refine ⟨.text r s, rfl, rfl, ?_⟩
    intro c hc
    cases c with
    | null => cases r <;> rfl
    | number x => simp [Cell.kind?] at hc
    | text s' => rfl

/-! ### Tables of numbers -/

namespace Table

variable {t : Table} {headers : List String} {records : List (List String)} {name : String}
  {kind : Kind} {row : Row}

/-- Whether no cell of a table is a number that is none. -/
def NaNFree (t : Table) : Prop :=
  ∀ row ∈ t.rows, ∀ x, Cell.number x ∈ row → x.isNaN = false

/-- A number that is made of a field is finite. -/
theorem isFinite_of_cellOf {field : String} {x : Double} (h : kind.cellOf field = .number x) :
    x.isFinite = true := by
  cases kind with
  | numeric =>
    by_cases hne : field = ""
    · subst hne
      cases h
    by_cases hnumeral : Numeral.IsFinite field
    · obtain ⟨y, hread, hfinite⟩ := hnumeral
      rw [Kind.cellOf, Cell.infer_of_read? hne hread hfinite] at h
      cases h
      exact hfinite
    · rw [Kind.cellOf, Cell.infer_of_not_isFinite hne hnumeral] at h
      cases h
  | text =>
    rw [Kind.cellOf] at h
    split at h <;> cases h

/-- A table of records has only finite numbers. -/
theorem nanFree_of_ofRecords (h : ofRecords headers records = .ok t) : t.NaNFree := by
  intro row hrow x hx
  by_cases hne : headers = []
  · -- Without columns there are no rows.
    have hcolumns : t.columns = [] := by rw [(eq_of_ofRecords h).1, hne, columnsOfRecords]
    rw [rows, t.rowCount_eq_zero hcolumns] at hrow
    cases hrow
  · rw [rows_of_ofRecords h hne] at hrow
    obtain ⟨record, -, rfl⟩ := List.mem_map.1 hrow
    obtain ⟨j, -, hcell⟩ := List.mem_map.1 hx
    exact Double.isNaN_of_isFinite (isFinite_of_cellOf hcell)

/-- What is found at a place of a row, and is not missing, is in the row. -/
theorem mem_of_getD {c : Cell} {i : Nat} (h : row.getD i .null = c) (hc : c ≠ .null) :
    c ∈ row := by
  rw [List.getD_eq_getElem?_getD] at h
  cases hi : row[i]? with
  | none =>
    rw [hi] at h
    exact absurd h.symm hc
  | some c' =>
    rw [hi, Option.getD_some] at h
    exact h ▸ List.mem_of_getElem? hi

/-- A cell in the column of a name is missing or a value of the kind of the column. The kind of a
column is that of its cells, and a number among them is no NaN by hypothesis. -/
theorem NaNFree.isValue_cell (hnan : t.NaNFree) (hkind : t.kind? name = some kind)
    (hrow : row ∈ t.rows) :
    row.cell t.columnNames name = .null ∨ (row.cell t.columnNames name).IsValue kind := by
  refine (kind?_cell_of_mem_rows hrow hkind).imp_right ?_
  intro hcell
  obtain ⟨i, hplace⟩ := exists_columnIndex?_of_kind? hkind
  rw [columnIndex?_eq] at hplace
  rw [← Row.getD_eq_cell hplace] at hcell ⊢
  -- The kind of the cell is that of the column, so the other cases are only those in which it is
  -- none.
  cases hc : row.getD i .null with
  | null =>
    rw [hc] at hcell
    cases hcell
  | text s =>
    rw [hc] at hcell
    cases hcell
    exact .text s
  | number x =>
    rw [hc] at hcell
    cases hcell
    exact .number (hnan row hrow x (mem_of_getD hc Cell.noConfusion))

end Table

end Roster
