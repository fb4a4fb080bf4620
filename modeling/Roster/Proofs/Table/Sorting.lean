import Roster.Proofs.Table.Ordering

/-!
# `Roster.Proofs.Table.Sorting`: what sorting does to the rows of a table

`Table.sort` reads the cells at a place, one for each row (`Table.key`), puts the places of the rows
in order, and picks the rows at these places. `sort_eq_pick` says so of every place, also of one
without a column, where all rows have a missing cell and nothing moves.

`sort_inOrder` is what the order is: all rows are picked, each once; the rows whose cell is missing
come last; the others go up or down; and of two rows that are compared as equal the one that stood
first comes first. Rows may be equal, so this is said of the places at which they stood. The last
part needs no look into the merge sort: what is tied with a row stays as it was
(`StablyOrdered.pairwise_tied`).

A list has one stable order, and what is left of a stable order is one. So the order of two
operations does not matter where both keep the stable order: sorting again changes nothing
(`sort_sort`), and filtering a sorted table is sorting a filtered one (`filter_sort`). Both are
equations of tables: the schema does not change, and the schema and the rows are the table.
-/

set_option autoImplicit false

namespace Roster

/-! ### Stable orders -/

section
variable {α : Type} {before : α → α → Bool} {xs ys : List α}

/-- A list in which nothing has to stand before an earlier entry is in its stable order. -/
theorem stablyOrdered_self (h : xs.Pairwise fun a b => before b a = false) :
    StablyOrdered before xs xs :=
  ⟨.refl xs, h, fun _ => rfl⟩

/-- What is tied keeps every relation that earlier entries have to later ones. -/
theorem StablyOrdered.pairwise_tied {r : α → α → Prop} (hirrefl : ∀ a, before a a = false)
    (h : StablyOrdered before xs ys) (hr : xs.Pairwise r) :
    ys.Pairwise fun a b => tied before a b = true → r a b := by
  rw [List.pairwise_iff_forall_sublist]
  intro a b hab htied
  -- Both entries are among those that are tied with the first one, and these are in both lists.
  have hself : tied before a a = true := by simp [tied, hirrefl]
  have hpair : [a, b].filter (tied before a) = [a, b] := by simp [hself, htied]
  have hsub : [a, b].Sublist (xs.filter (tied before a)) := by
    rw [← h.stable a, ← hpair]
    exact hab.filter (tied before a)
  exact List.pairwise_iff_forall_sublist.1 (hr.filter (tied before a)) hsub

end

/-! ### Tied cells -/

namespace Cell

variable {direction : Direction} {a b : Cell}

/-- A missing cell is compared as equal to missing ones only. -/
theorem isNull_eq_of_order_eq (h : a.order b = .eq) : a.isNull = b.isNull := by
  cases a <;> cases b <;> simp_all [order, isNull]

/-- Two cells are tied if both are missing or they are compared as equal, whatever the direction. -/
theorem tied_precedes_iff :
    tied (precedes direction) a b = true
      ↔ a.isNull = true ∧ b.isNull = true ∨ a.order b = .eq := by
  have hnull := isNull_eq_of_order_eq (a := a) (b := b)
  have hswap := order_swap b a
  cases ha : a.isNull <;> cases hb : b.isNull
  · -- Of two cells that are there neither comes first, in the one direction or in the other.
    cases direction <;> cases hab : a.order b <;>
      simp [tied, precedes, orderIn, ha, hb, hab, hswap]
  all_goals
    rw [ha, hb] at hnull
    simp_all [tied, precedes]

end Cell

namespace Table

variable {t : Table} {i : Nat} {direction : Direction}

/-! ### The places of a sorted table -/

/-- The cell by which a row is sorted. -/
def key (t : Table) (i j : Nat) : Cell := (t.row j).getD i .null

/-- The places of the rows of a table, in the order of their cells at a place. -/
def sortedPlaces (t : Table) (i : Nat) (direction : Direction) : List Nat :=
  (List.range t.rowCount).mergeSort fun j k => Cell.mayPrecede direction (t.key i j) (t.key i k)

/-- Sorting goes to every place once. -/
theorem sortedPlaces_perm (t : Table) (i : Nat) (direction : Direction) :
    (t.sortedPlaces i direction).Perm (List.range t.rowCount) :=
  List.mergeSort_perm _ _

/-- The rows at the sorted places are in that order. -/
theorem rows_pick_sortedPlaces (t : Table) (i : Nat) (direction : Direction) :
    (t.pick (t.sortedPlaces i direction)).rows = (t.sortedPlaces i direction).map t.row := by
  refine rows_pick ?_
  intro j hj
  exact List.mem_range.1 ((t.sortedPlaces_perm i direction).mem_iff.1 hj)

/-- The rows of a sorted table are the rows at the sorted places. -/
theorem rows_sort_eq_map (t : Table) (i : Nat) (direction : Direction) :
    (t.sort i direction).rows = (t.sortedPlaces i direction).map t.row := by
  rw [rows_sort, rows, sortedPlaces]
  refine (List.map_mergeSort ?_).symm
  intro j _ k _
  rfl

/-- Sorting picks the rows at the sorted places, also where there is no column to sort by. -/
theorem sort_eq_pick (t : Table) (i : Nat) (direction : Direction) :
    t.sort i direction = t.pick (t.sortedPlaces i direction) := by
  refine eq_of_rows ?_ ?_
  · rw [schema_sort, schema_pick]
  · rw [rows_sort_eq_map, rows_pick_sortedPlaces]

/-- What it takes for the row at one place to come before the row at another one in a sorted table:

- `nulls_last`: if its cell is missing, so is the other one;
- `ascending`, `descending`: if both cells are there, it is compared as no greater, or as no less;
- `stable`: if both cells are missing or they are compared as equal, it has stood before the other
  row all along. -/
structure InOrder (t : Table) (i : Nat) (direction : Direction) (j k : Nat) : Prop where
  nulls_last : (t.key i j).isNull = true → (t.key i k).isNull = true
  ascending : direction = .ascending → (t.key i j).isNull = false → (t.key i k).isNull = false →
    (t.key i j).order (t.key i k) ≠ .gt
  descending : direction = .descending → (t.key i j).isNull = false → (t.key i k).isNull = false →
    (t.key i j).order (t.key i k) ≠ .lt
  stable : (t.key i j).isNull = true ∧ (t.key i k).isNull = true ∨
    (t.key i j).order (t.key i k) = .eq → j < k

/-- A row comes before another one if that one does not have to, and if it has stood before it where
the two are tied. -/
theorem inOrder_of_not_precedes {j k : Nat}
    (hbefore : Cell.precedes direction (t.key i k) (t.key i j) = false)
    (htied : tied (Cell.precedes direction) (t.key i j) (t.key i k) = true → j < k) :
    t.InOrder i direction j k where
  nulls_last hj := by
    by_contra hk
    simp [Cell.precedes, hj, hk] at hbefore
  ascending hdirection hj hk := by
    subst hdirection
    intro hgt
    have hlt : (t.key i k).order (t.key i j) = .lt := by
      rw [Cell.order_swap, hgt]
      rfl
    simp [Cell.precedes, Cell.orderIn, hj, hk, hlt] at hbefore
  descending hdirection hj hk := by
    subst hdirection
    intro hlt
    simp [Cell.precedes, Cell.orderIn, hj, hk, hlt] at hbefore
  stable h := htied (Cell.tied_precedes_iff.2 h)

/-- The sorted places stand in order, each before all that follow. -/
theorem pairwise_sortedPlaces (t : Table) (i : Nat) (direction : Direction) :
    (t.sortedPlaces i direction).Pairwise (t.InOrder i direction) := by
  have hordered := Cell.stablyOrdered_mergeSort (t.key i) direction (List.range t.rowCount)
  have hstable := hordered.pairwise_tied (fun j => Cell.precedes_self direction (t.key i j))
    List.pairwise_lt_range
  refine (hordered.sorted.and hstable).imp ?_
  intro j k hjk
  exact inOrder_of_not_precedes hjk.1 hjk.2

/-! ### Sorting again, and filtering -/

/-- A sorted table is sorted already. -/
theorem sort_sort (t : Table) (i : Nat) (direction : Direction) :
    (t.sort i direction).sort i direction = t.sort i direction := by
  refine eq_of_rows (schema_sort _ i direction) ?_
  rw [rows_sort (t.sort i direction), rows_sort t]
  refine List.mergeSort_of_pairwise (List.pairwise_mergeSort ?_ ?_ t.rows)
  · intro r s u
    exact Cell.mayPrecede_trans
  · intro r s
    exact Cell.mayPrecede_total direction _ _

/-- The rows of a sorted table are its rows in the stable order of the cells at the place. -/
theorem stablyOrdered_sort_place (t : Table) (i : Nat) (direction : Direction) :
    StablyOrdered (fun r s : Row => Cell.precedes direction (r.getD i .null) (s.getD i .null))
      t.rows (t.sort i direction).rows := by
  rw [rows_sort]
  exact Cell.stablyOrdered_mergeSort (fun r : Row => r.getD i .null) direction t.rows

/-- A filtered table is sorted as the sorted table is filtered. -/
theorem filter_sort (t : Table) (keep : Row → Bool) (i : Nat) (direction : Direction) :
    (t.filter keep).sort i direction = (t.sort i direction).filter keep := by
  refine eq_of_rows ?_ ?_
  · rw [schema_sort, filter, schema_pick, filter, schema_pick, schema_sort]
  · -- Both are the rows that are kept, in their one stable order.
    have hsorted := (t.filter keep).stablyOrdered_sort_place i direction
    have hkept := (t.stablyOrdered_sort_place i direction).filter keep
    rw [rows_filter] at hsorted ⊢
    exact hsorted.unique (fun r => Cell.precedes_self direction _) hkept

/-- Sorting a table by the cells at a place picks every row once, in an order in which missing cells
come last, the others go up or down, and rows that are compared as equal stay as they stood. The
columns keep their names and kinds. Sorting once more changes nothing. -/
theorem sort_inOrder (t : Table) (i : Nat) (direction : Direction) :
    (∃ places : List Nat, places.Perm (List.range t.rowCount) ∧
      t.sort i direction = t.pick places ∧
      (t.sort i direction).rows = places.map t.row ∧
      places.Pairwise (t.InOrder i direction)) ∧
    (t.sort i direction).rows.Perm t.rows ∧
    (t.sort i direction).schema = t.schema ∧
    (t.sort i direction).sort i direction = t.sort i direction := by
  refine ⟨⟨t.sortedPlaces i direction, t.sortedPlaces_perm i direction, t.sort_eq_pick i direction,
    t.rows_sort_eq_map i direction, t.pairwise_sortedPlaces i direction⟩, ?_,
    t.schema_sort i direction, t.sort_sort i direction⟩
  exact (t.stablyOrdered_sort_place i direction).perm

end Table

end Roster
