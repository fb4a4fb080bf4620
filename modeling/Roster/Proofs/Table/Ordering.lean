import Mathlib.Data.List.Sort
import Roster.Proofs.Table.Rows

/-!
# `Roster.Proofs.Table.Ordering`: a sorted table has its rows in the one stable order

`StablyOrdered before xs ys` says that `ys` is `xs` put in order: the same entries, none behind
one that it has to stand before, and those that may stand either way as they stood in `xs`. There
is one such list at most (`StablyOrdered.unique`), and a merge sort gives it
(`stablyOrdered_mergeSort`) if its comparison is total and transitive.

The comparison of a table's sort is (`mayPrecede_total`, `mayPrecede_trans`) whatever the cells
are, not-a-numbers and cells of different kinds included; as a function to `Ordering` it is
`Cell.arrange`, a total preorder (`transCmp_arrange`). `Cell.precedes` says which cell has to
stand before which: a missing cell before none, every other cell before a missing one, and two
cells that are there as `Cell.order` has it, in the direction that is asked for. So the rows of a
sorted table are the rows of the table in the stable order of the cells of a column
(`stablyOrdered_sort`).
-/

set_option autoImplicit false

namespace Roster

/-! ### Stable orders -/

section
variable {α : Type}

/-- Whether neither of two things has to stand before the other. -/
def tied (before : α → α → Bool) (a b : α) : Bool := !before a b && !before b a

/-- `ys` is `xs` in an order that is stable: things that are tied stay as they are. -/
structure StablyOrdered (before : α → α → Bool) (xs ys : List α) : Prop where
  perm : ys.Perm xs
  sorted : ys.Pairwise fun a b => before b a = false
  stable : ∀ a, ys.filter (tied before a) = xs.filter (tied before a)

variable {before : α → α → Bool} {xs ys zs : List α}

/-- Two lists in order with the same entries and the same ties are equal: each starts with an
entry that nothing has to stand before, so the first entries are tied, and the ties agree. -/
theorem eq_of_sorted_of_perm (hirrefl : ∀ a, before a a = false) (hperm : ys.Perm zs)
    (hys : ys.Pairwise fun a b => before b a = false)
    (hzs : zs.Pairwise fun a b => before b a = false)
    (hties : ∀ a, ys.filter (tied before a) = zs.filter (tied before a)) : ys = zs := by
  induction ys generalizing zs with
  | nil => exact hperm.nil_eq
  | cons y ys ih =>
    cases zs with
    | nil => exact absurd hperm.symm.nil_eq.symm (List.cons_ne_nil y ys)
    | cons z zs =>
      have hself : ∀ a, tied before a a = true := by
        intro a
        simp [tied, hirrefl]
      -- Neither first entry has to stand behind the other one, since each list has both.
      have hzy : before z y = false := by
        rcases List.mem_cons.1 (hperm.mem_iff.2 List.mem_cons_self) with rfl | hz
        · exact hirrefl _
        · exact List.rel_of_pairwise_cons hys hz
      have hyz : before y z = false := by
        rcases List.mem_cons.1 (hperm.mem_iff.1 List.mem_cons_self) with rfl | hy
        · exact hirrefl _
        · exact List.rel_of_pairwise_cons hzs hy
      have hhead : y = z := by
        have hy := hties y
        rw [List.filter_cons_of_pos (hself y),
          List.filter_cons_of_pos (by simp [tied, hzy, hyz])] at hy
        exact (List.cons.inj hy).1
      subst hhead
      -- The ties of the rest are those of the whole without its first entry.
      congr 1
      refine ih hperm.cons_inv hys.of_cons hzs.of_cons fun a => ?_
      have ha := hties a
      rw [List.filter_cons, List.filter_cons] at ha
      split at ha
      · exact (List.cons.inj ha).2
      · exact ha

/-- There is at most one stable order. -/
theorem StablyOrdered.unique (hirrefl : ∀ a, before a a = false)
    (hys : StablyOrdered before xs ys) (hzs : StablyOrdered before xs zs) : ys = zs :=
  eq_of_sorted_of_perm hirrefl (hys.perm.trans hzs.perm.symm) hys.sorted hzs.sorted
    fun a => (hys.stable a).trans (hzs.stable a).symm

/-- What is left of a list in order is in order. -/
theorem StablyOrdered.filter (h : StablyOrdered before xs ys) (p : α → Bool) :
    StablyOrdered before (xs.filter p) (ys.filter p) := by
  refine ⟨h.perm.filter p, h.sorted.filter p, fun a => ?_⟩
  have hcomm : ∀ l : List α,
      (l.filter p).filter (tied before a) = (l.filter (tied before a)).filter p := by
    intro l
    rw [List.filter_filter, List.filter_filter]
    exact List.filter_congr fun _ _ => Bool.and_comm _ _
  rw [hcomm, hcomm, h.stable]

/-- A merge sort puts a list in the stable order of its comparison. That it is stable follows from
sublists: what is tied with an entry is in order already, so sorting keeps it as it is. -/
theorem stablyOrdered_mergeSort {le : α → α → Bool}
    (htrans : ∀ a b c, le a b = true → le b c = true → le a c = true)
    (htotal : ∀ a b, (le a b || le b a) = true) (xs : List α) :
    StablyOrdered (fun a b => !le b a) xs (xs.mergeSort le) := by
  have hperm := List.mergeSort_perm xs le
  refine ⟨hperm, ?_, fun a => ?_⟩
  · simpa using List.pairwise_mergeSort htrans htotal xs
  · -- What is tied with `a` is in order already, so sorting has it as a sublist.
    have hle : ∀ b ∈ xs.filter (tied (fun a b => !le b a) a), le a b = true ∧ le b a = true := by
      intro b hb
      have htied := (List.mem_filter.1 hb).2
      simp only [tied, Bool.not_not, Bool.and_eq_true] at htied
      exact ⟨htied.2, htied.1⟩
    have hordered : (xs.filter (tied (fun a b => !le b a) a)).Pairwise fun b c => le b c := by
      refine List.pairwise_of_forall_mem_list fun b hb c hc => ?_
      exact htrans b a c (hle b hb).2 (hle c hc).1
    have hsub := (List.sublist_mergeSort htrans htotal hordered List.filter_sublist).filter
      (tied (fun a b => !le b a) a)
    simp only [List.filter_filter, Bool.and_self] at hsub
    exact (hsub.eq_of_length_le (hperm.filter _).length_eq.le).symm

end

/-! ### The order of cells -/

/-- Texts are compared as strings are. -/
theorem compareText_eq_compare : compareText = compare := rfl

namespace Cell

/-- The order of two cells in a direction. -/
def orderIn (direction : Direction) (a b : Cell) : Ordering :=
  match direction with
  | .ascending => a.order b
  | .descending => b.order a

/-- Whether a cell has to stand before another one: missing cells come last in both directions. -/
def precedes (direction : Direction) (a b : Cell) : Bool :=
  !a.isNull && (b.isNull || orderIn direction a b == .lt)

/-- Two cells are compared the same way from both sides. -/
theorem order_swap (a b : Cell) : a.order b = (b.order a).swap := by
  cases a with
  | null => cases b <;> rfl
  | number x =>
    cases b with
    | number y => exact Std.OrientedOrd.eq_swap
    | _ => rfl
  | text s =>
    cases b with
    | text t =>
      show compareText s t = (compareText t s).swap
      rw [compareText_eq_compare]
      exact Std.OrientedOrd.eq_swap
    | _ => rfl

/-- Cells in order are in order with one between them. -/
theorem order_trans {a b c : Cell} (hab : (a.order b).isLE) (hbc : (b.order c).isLE) :
    (a.order c).isLE := by
  cases a <;> cases b <;> cases c
  case number.number.number => exact Std.TransOrd.isLE_trans hab hbc
  case text.text.text =>
    simp only [order, compareText_eq_compare] at hab hbc ⊢
    exact Std.TransOrd.isLE_trans hab hbc
  -- Two cells of different kinds stand in the order of the kinds.
  all_goals simp_all [order]

/-- In either direction two cells are compared the same way from both sides. -/
theorem orderIn_swap (direction : Direction) (a b : Cell) :
    orderIn direction a b = (orderIn direction b a).swap := by
  cases direction with
  | ascending => exact order_swap a b
  | descending => exact order_swap b a

/-- In either direction cells in order are in order with one between them. -/
theorem orderIn_trans {direction : Direction} {a b c : Cell}
    (hab : (orderIn direction a b).isLE) (hbc : (orderIn direction b c).isLE) :
    (orderIn direction a c).isLE := by
  cases direction with
  | ascending => exact order_trans hab hbc
  | descending => exact order_trans hbc hab

/-- A cell may stand before another one that is missing, or if neither is missing and they are in
order. -/
theorem mayPrecede_iff {direction : Direction} {a b : Cell} :
    mayPrecede direction a b = true
      ↔ b.isNull = true ∨ a.isNull = false ∧ (orderIn direction a b).isLE = true := by
  have hle : ∀ o : Ordering, (o != .gt) = o.isLE := by decide
  cases direction <;> cases ha : a.isNull <;> cases hb : b.isNull
    <;> simp [mayPrecede, orderIn, ha, hb, hle]

/-- Of two cells one may stand before the other. -/
theorem mayPrecede_total (direction : Direction) (a b : Cell) :
    (mayPrecede direction a b || mayPrecede direction b a) = true := by
  rw [Bool.or_eq_true, mayPrecede_iff, mayPrecede_iff]
  have hswap := orderIn_swap direction a b
  cases ha : a.isNull with
  | true => exact .inr (.inl rfl)
  | false =>
    cases hb : b.isNull with
    | true => exact .inl (.inl rfl)
    | false =>
      cases hba : orderIn direction b a with
      | lt => exact .inr (.inr ⟨rfl, rfl⟩)
      | eq => exact .inr (.inr ⟨rfl, rfl⟩)
      | gt =>
        rw [hba] at hswap
        exact .inl (.inr ⟨rfl, by rw [hswap]; rfl⟩)

/-- If cells may stand in a row, the first may stand before the last. -/
theorem mayPrecede_trans {direction : Direction} {a b c : Cell}
    (hab : mayPrecede direction a b = true) (hbc : mayPrecede direction b c = true) :
    mayPrecede direction a c = true := by
  rw [mayPrecede_iff] at hab hbc ⊢
  rcases hbc with hc | ⟨hb, hbc⟩
  · exact .inl hc
  · rcases hab with hb' | ⟨ha, hab⟩
    · rw [hb] at hb'
      cases hb'
    · exact .inr ⟨ha, orderIn_trans hab hbc⟩

/-- The comparison that a sort is given, missing cells included. -/
def arrange (direction : Direction) (a b : Cell) : Ordering :=
  match a.isNull, b.isNull with
  | false, false => orderIn direction a b
  | true, true => .eq
  | true, false => .gt
  | false, true => .lt

/-- A cell may stand before another one if it is compared as no greater. -/
theorem mayPrecede_eq_isLE (direction : Direction) (a b : Cell) :
    mayPrecede direction a b = (arrange direction a b).isLE := by
  rw [Bool.eq_iff_iff, mayPrecede_iff, arrange]
  cases a.isNull <;> cases b.isNull <;> simp

/-- The comparison is a total preorder on all cells, in both directions. -/
instance transCmp_arrange (direction : Direction) : Std.TransCmp (arrange direction) where
  eq_swap {a b} := by
    unfold arrange
    cases a.isNull <;> cases b.isNull <;> first | rfl | exact orderIn_swap direction a b
  isLE_trans {a b c} hab hbc := by
    rw [← mayPrecede_eq_isLE] at hab hbc ⊢
    exact mayPrecede_trans hab hbc

/-- No cell has to stand before itself. -/
@[simp] theorem precedes_self (direction : Direction) (a : Cell) :
    precedes direction a a = false := by
  have hswap := orderIn_swap direction a a
  cases ha : a.isNull with
  | true => simp [precedes, ha]
  | false =>
    cases hself : orderIn direction a a with
    | lt =>
      rw [hself] at hswap
      cases hswap
    | eq => simp [precedes, ha, hself]
    | gt => simp [precedes, ha, hself]

/-- A cell may stand before another one unless that one has to stand before it. -/
theorem not_mayPrecede (direction : Direction) (a b : Cell) :
    (!mayPrecede direction b a) = precedes direction a b := by
  have hswap := orderIn_swap direction a b
  rw [Bool.eq_iff_iff, Bool.not_eq_true', ← Bool.not_eq_true, mayPrecede_iff, precedes]
  cases ha : a.isNull <;> cases hb : b.isNull <;> cases hba : orderIn direction b a
    <;> rw [hba] at hswap <;> simp [hswap]

/-- A merge sort by cells, one for each thing, puts things in the stable order of their cells. -/
theorem stablyOrdered_mergeSort {α : Type} (key : α → Cell) (direction : Direction)
    (xs : List α) :
    StablyOrdered (fun a b => precedes direction (key a) (key b)) xs
      (xs.mergeSort fun a b => mayPrecede direction (key a) (key b)) := by
  have hordered : StablyOrdered (fun a b => !mayPrecede direction (key b) (key a)) xs
      (xs.mergeSort fun a b => mayPrecede direction (key a) (key b)) := by
    refine Roster.stablyOrdered_mergeSort ?_ ?_ xs
    · intro a b c
      exact mayPrecede_trans
    · intro a b
      exact mayPrecede_total direction _ _
  simp only [not_mayPrecede] at hordered
  exact hordered

end Cell

/-! ### Sorted tables -/

/-- Whether a row has to stand before another one in the order of the column of a name. -/
def Row.precedes (names : List String) (column : String) (direction : Direction)
    (r s : Row) : Bool :=
  Cell.precedes direction (r.cell names column) (s.cell names column)

/-- A merge sort by the cells of a column puts rows in the stable order of the column. -/
theorem Row.stablyOrdered_mergeSort (names : List String) (column : String)
    (direction : Direction) (rows : List Row) :
    StablyOrdered (Row.precedes names column direction) rows (rows.mergeSort fun r s =>
      Cell.mayPrecede direction (r.cell names column) (s.cell names column)) :=
  Cell.stablyOrdered_mergeSort (fun r : Row => r.cell names column) direction rows

namespace Table

variable {t : Table}

/-- The rows of a sorted table are the rows of the table, sorted by their cells at the place. A
place without a column changes nothing, as no row has a cell there. -/
theorem rows_sort (t : Table) (i : Nat) (direction : Direction) :
    (t.sort i direction).rows
      = t.rows.mergeSort fun r s =>
          Cell.mayPrecede direction (r.getD i .null) (s.getD i .null) := by
  unfold sort
  split
  · rename_i hnone
    -- Without a column there, all rows compare alike.
    refine (List.mergeSort_of_pairwise (List.pairwise_of_forall_mem_list ?_)).symm
    intro r hr s hs
    obtain ⟨j, -, rfl⟩ := List.mem_map.1 hr
    obtain ⟨k, -, rfl⟩ := List.mem_map.1 hs
    rw [getD_row, getD_row, hnone]
    rfl
  · rename_i c hc
    rw [rows_pick, rows]
    · refine List.map_mergeSort fun j _ k _ => ?_
      rw [getD_row, getD_row, hc]
      rfl
    · intro j hj
      exact List.mem_range.1 (List.mem_mergeSort.1 hj)

/-- Sorting keeps the columns. -/
theorem schema_sort (t : Table) (i : Nat) (direction : Direction) :
    (t.sort i direction).schema = t.schema := by
  unfold sort
  split
  · rfl
  · exact schema_pick t _

/-- The rows of a sorted table are its rows in the stable order of the column. -/
theorem stablyOrdered_sort {column : String} {i : Nat} (direction : Direction)
    (h : t.columnIndex? column = some i) :
    StablyOrdered (Row.precedes t.columnNames column direction) t.rows
      (t.sort i direction).rows := by
  have hcell : ∀ r : Row, r.getD i .null = r.cell t.columnNames column := by
    intro r
    exact Row.getD_eq_cell (by rwa [← columnIndex?_eq])
  rw [rows_sort]
  simp only [hcell]
  exact Row.stablyOrdered_mergeSort t.columnNames column direction t.rows

end Table

end Roster
