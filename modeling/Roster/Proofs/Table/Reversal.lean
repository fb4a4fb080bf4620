import Mathlib.Data.List.Pairwise
import Roster.Proofs.Table.Sorting

/-!
# `Roster.Proofs.Table.Reversal`: down is up, mirrored

Sorting down turns the comparison round, but not the order in which tied rows stand, and not the
place of the missing cells. So the rows of a table sorted down are not those of the table sorted up
from last to first: tied rows would come in the wrong order, and missing cells first. They are had
by turning the rows round *before* sorting up as well, and by leaving the rows without a cell out
(`rows_sort_descending`).

The two orders are compared on stable orders. Turning a list round turns its stable order round
(`StablyOrdered.reverse`), and what has to come last can be sorted on its own and put behind
(`StablyOrdered.append`). As there is one stable order only, no sort is run in the proof.

Where no cell is missing and no two are compared as equal there is nothing to keep in order, and
down is up from last to first (`eq_reverse_of_distinct`).
-/

set_option autoImplicit false

namespace Roster

/-! ### Stable orders, turned round and put behind each other -/

section
variable {α : Type} {before before' : α → α → Bool} {xs ys zs : List α}

/-- The stable order of a list that is turned round. -/
theorem StablyOrdered.reverse (h : StablyOrdered before xs ys) :
    StablyOrdered (fun a b => before b a) xs.reverse ys.reverse where
  perm := (List.reverse_perm ys).trans (h.perm.trans (List.reverse_perm xs).symm)
  sorted := List.pairwise_reverse.2 h.sorted
  stable a := by
    have htied : tied (fun a b => before b a) a = tied before a := by
      funext b
      exact Bool.and_comm _ _
    rw [htied, List.filter_reverse, List.filter_reverse, h.stable a]

/-- A list has the same stable order by two relations that agree on it and tie the same things. -/
theorem StablyOrdered.congr (h : StablyOrdered before xs ys)
    (hbefore : ∀ a ∈ xs, ∀ b ∈ xs, before a b = before' a b)
    (htied : tied before = tied before') : StablyOrdered before' xs ys where
  perm := h.perm
  sorted := by
    refine h.sorted.imp_of_mem ?_
    intro a b ha hb hab
    rwa [← hbefore b (h.perm.mem_iff.1 hb) a (h.perm.mem_iff.1 ha)]
  stable := htied ▸ h.stable

/-- A selection that is all on one side of a partition is had from the two parts. -/
theorem filter_parts {p last : α → Bool} {side : Bool} (h : ∀ a, p a = true → last a = side)
    (xs : List α) :
    (xs.filter fun a => !last a).filter p ++ (xs.filter last).filter p = xs.filter p := by
  have hfirst : ∀ a, (p a && !last a) = (p a && !side) := by
    intro a
    cases ha : p a with
    | false => rfl
    | true => rw [h a ha]
  have hsecond : ∀ a, (p a && last a) = (p a && side) := by
    intro a
    cases ha : p a with
    | false => rfl
    | true => rw [h a ha]
  simp only [List.filter_filter, hfirst, hsecond]
  cases side <;> simp

/-- What has to come last is put in order on its own, behind the others. No tie goes across the two
parts, so each of them is stable on its own. -/
theorem StablyOrdered.append {last : α → Bool}
    (hlast : ∀ a b, last a = false → last b = true → before a b = true ∧ before b a = false)
    (hys : StablyOrdered before (xs.filter fun a => !last a) ys)
    (hzs : StablyOrdered before (xs.filter last) zs) : StablyOrdered before xs (ys ++ zs) where
  perm := by
    refine (hys.perm.append hzs.perm).trans (List.perm_append_comm.trans ?_)
    exact List.filter_append_perm last xs
  sorted := by
    refine List.pairwise_append.2 ⟨hys.sorted, hzs.sorted, ?_⟩
    intro a ha b hb
    have hfirst := (List.mem_filter.1 (hys.perm.mem_iff.1 ha)).2
    have hsecond := (List.mem_filter.1 (hzs.perm.mem_iff.1 hb)).2
    exact (hlast a b (by simpa using hfirst) hsecond).2
  stable a := by
    -- What is tied with `a` comes last exactly if `a` does.
    have hside : ∀ b, tied before a b = true → last b = last a := by
      intro b hb
      cases ha : last a <;> cases hb' : last b
      · rfl
      · simp [tied, (hlast a b ha hb').1] at hb
      · simp [tied, (hlast b a hb' ha).1] at hb
      · rfl
    rw [List.filter_append, hys.stable, hzs.stable, filter_parts hside]

end

/-! ### Cells in the two directions -/

namespace Cell

variable {a b : Cell}

/-- Of two cells that are there, the one that comes first in one direction comes last in the
other. -/
theorem precedes_descending (ha : a.isNull = false) (hb : b.isNull = false) :
    precedes .descending a b = precedes .ascending b a := by
  simp [precedes, orderIn, ha, hb]

/-- The same cells are tied in both directions. -/
theorem tied_descending (a b : Cell) :
    tied (precedes .descending) a b = tied (precedes .ascending) a b := by
  rw [Bool.eq_iff_iff, tied_precedes_iff, tied_precedes_iff]

/-- A cell that is there has to come before a missing one. -/
theorem precedes_of_isNull (direction : Direction) (ha : a.isNull = false)
    (hb : b.isNull = true) : precedes direction a b = true := by
  simp [precedes, ha, hb]

/-- A missing cell does not have to come before any. -/
theorem not_precedes_of_isNull (direction : Direction) (ha : a.isNull = true) (b : Cell) :
    precedes direction a b = false := by
  simp [precedes, ha]

variable {α : Type} {xs up down : List α}

/-- Things with cells that are there are in order down if they are so up, from last to first and
taken from last to first. -/
theorem stablyOrdered_descending (key : α → Cell) (hthere : ∀ a ∈ xs, (key a).isNull = false)
    (hup : StablyOrdered (fun a b => precedes .ascending (key a) (key b)) xs.reverse up) :
    StablyOrdered (fun a b => precedes .descending (key a) (key b)) xs up.reverse := by
  have hreverse := hup.reverse
  rw [List.reverse_reverse] at hreverse
  refine hreverse.congr ?_ ?_
  · intro a ha b hb
    exact (precedes_descending (hthere a ha) (hthere b hb)).symm
  · funext a b
    show (!_ && !_) = tied (precedes .descending) (key a) (key b)
    rw [tied_descending, tied, Bool.and_comm]

/-- Where no cell is missing and no two are compared as equal, down is up from last to first: there
is one way to put the things in order, stable or not. -/
theorem eq_reverse_of_distinct (key : α → Cell)
    (hup : StablyOrdered (fun a b => precedes .ascending (key a) (key b)) xs up)
    (hdown : StablyOrdered (fun a b => precedes .descending (key a) (key b)) xs down)
    (hthere : ∀ a ∈ xs, (key a).isNull = false)
    (hdistinct : xs.Pairwise fun a b => (key a).order (key b) ≠ .eq) : down = up.reverse := by
  have hsymm : Std.Symm fun a b : α => (key a).order (key b) ≠ .eq := by
    refine ⟨fun a b hab hba => hab ?_⟩
    rw [order_swap, hba]
    rfl
  have hperm : down.Perm up.reverse :=
    hdown.perm.trans (hup.perm.symm.trans (List.reverse_perm up).symm)
  have hreverse : up.reverse.Pairwise fun a b => precedes .descending (key b) (key a) = false := by
    refine List.pairwise_reverse.2 (hup.sorted.imp_of_mem ?_)
    intro a b ha hb hab
    rwa [precedes_descending (hthere a (hup.perm.mem_iff.1 ha)) (hthere b (hup.perm.mem_iff.1 hb))]
  refine List.Perm.eq_of_pairwise ?_ hdown.sorted hreverse hperm
  intro a b ha hb hab hba
  -- Neither comes first, so the two are compared as equal, and only the same thing is.
  have htied : tied (precedes .descending) (key a) (key b) = true := by simp [tied, hab, hba]
  have ha := hdown.perm.mem_iff.1 ha
  have hb := hdown.perm.mem_iff.1 (hperm.mem_iff.2 hb)
  by_contra hne
  have hneq := hdistinct.forall ha hb hne
  rcases tied_precedes_iff.1 htied with ⟨hnull, -⟩ | heq
  · simp [hthere a ha] at hnull
  · exact hneq heq

end Cell

/-! ### Tables sorted down -/

namespace Table

/-- The table with its rows from last to first. -/
def reversed (t : Table) : Table := t.pick (List.range t.rowCount).reverse

/-- The rows of a reversed table are its rows the other way round. -/
@[simp] theorem rows_reversed (t : Table) : t.reversed.rows = t.rows.reverse := by
  have hplaces : ∀ j ∈ (List.range t.rowCount).reverse, j < t.rowCount := by
    intro j hj
    exact List.mem_range.1 (List.mem_reverse.1 hj)
  rw [reversed, rows_pick hplaces, List.map_reverse]
  rfl

/-- The rows of a table sorted down: those with a cell at the place, turned round, sorted up and
turned round again, and behind them those without, as they stood. -/
theorem rows_sort_descending (t : Table) (i : Nat) :
    (t.sort i .descending).rows
      = ((t.filter fun r => !(r.getD i .null).isNull).reversed.sort i .ascending).rows.reverse
        ++ t.rows.filter fun r => (r.getD i .null).isNull := by
  have hdown := t.stablyOrdered_sort_place i .descending
  have hup := (t.filter fun r => !(r.getD i .null).isNull).reversed.stablyOrdered_sort_place i
    .ascending
  rw [rows_reversed, rows_filter] at hup
  have hthere : ∀ r ∈ t.rows.filter fun r => !(r.getD i .null).isNull,
      (r.getD i .null).isNull = false := by
    intro r hr
    simpa using (List.mem_filter.1 hr).2
  have hmirror := Cell.stablyOrdered_descending (fun r : Row => r.getD i .null) hthere hup
  -- Two missing cells are tied, so the rows without a cell are in order as they stand.
  have hmissing : (t.rows.filter fun r => (r.getD i .null).isNull).Pairwise fun r s =>
      Cell.precedes .descending (s.getD i .null) (r.getD i .null) = false := by
    refine List.pairwise_of_forall_mem_list ?_
    intro r _ s hs
    exact Cell.not_precedes_of_isNull .descending (List.mem_filter.1 hs).2 _
  refine hdown.unique (fun r => Cell.precedes_self _ _) ?_
  refine StablyOrdered.append ?_ hmirror (stablyOrdered_self hmissing)
  intro r s hr hs
  exact ⟨Cell.precedes_of_isNull .descending hr hs, Cell.not_precedes_of_isNull .descending hs _⟩

end Table

end Roster
