import Roster.Proofs.Session.Operators
import Roster.Proofs.Table.Sorting

/-!
# `Roster.Proofs.Session.Ranges`: what a comparison keeps of a sorted table is one stretch of it

A sort puts the cells of a column in their total order, and a filter compares them as values. That
the two agree is `pairwise_sort_below` for the relations: of two rows of a sorted table that have a
cell, the lower one passes by `<` and `<=` if the higher one does, and the higher one by `>` and
`>=` if the lower one does. Which of them is the lower one depends on the direction (`BelowIn`).

From this follows what a reader of a sorted table sees. A test is `Unbroken` if every row between
two that pass does. The relations are, all but `!=` (`unbroken_relation`): a row between two with a
cell has a cell, since missing cells come last, and compares between them. So is `between`, as both
of its limits are. And what is kept of a list by an unbroken test stands side by side in it
(`isInfix_filter`).
-/

set_option autoImplicit false

namespace Roster

/-! ### Stretches of lists -/

section
variable {α : Type} {before : α → α → Prop} {keep keep' : α → Bool} {a : α} {xs : List α}

/-- Whether everything between two things that are kept is kept. -/
def Unbroken (before : α → α → Prop) (keep : α → Bool) : Prop :=
  ∀ a b c, before a b → before b c → keep a = true → keep c = true → keep b = true

/-- What passes two tests is unbroken if both tests are. -/
theorem Unbroken.and (h : Unbroken before keep) (h' : Unbroken before keep') :
    Unbroken before fun a => keep a && keep' a := by
  intro a b c hab hbc ha hc
  rw [Bool.and_eq_true] at ha hc ⊢
  exact ⟨h a b c hab hbc ha.1 hc.1, h' a b c hab hbc ha.2 hc.2⟩

/-- Behind a first thing that is kept, what is kept comes first. What is kept is unbroken, so
nothing behind the first thing that is not kept is kept. -/
theorem isPrefix_filter (hkeep : Unbroken before keep) (ha : keep a = true)
    (hxs : (a :: xs).Pairwise before) : xs.filter keep <+: xs := by
  induction xs with
  | nil => exact List.prefix_rfl
  | cons x xs ih =>
    obtain ⟨hafter, hxs⟩ := List.pairwise_cons.1 hxs
    by_cases hx : keep x = true
    · rw [List.filter_cons_of_pos hx, List.prefix_cons_inj]
      refine ih (List.pairwise_cons.2 ⟨?_, hxs.of_cons⟩)
      intro b hb
      exact hafter b (List.mem_cons_of_mem x hb)
    · -- If anything behind `x` were kept, then `x` would be.
      have hnone : xs.filter keep = [] := by
        rw [List.filter_eq_nil_iff]
        intro c hc hkept
        exact hx (hkeep a x c (hafter x List.mem_cons_self) (List.rel_of_pairwise_cons hxs hc)
          ha hkept)
      rw [List.filter_cons_of_neg hx, hnone]
      exact List.nil_prefix

/-- What an unbroken test keeps of a list in order stands side by side in it. -/
theorem isInfix_filter (hkeep : Unbroken before keep) (hxs : xs.Pairwise before) :
    xs.filter keep <:+: xs := by
  induction xs with
  | nil => exact List.infix_rfl
  | cons x xs ih =>
    by_cases hx : keep x = true
    · rw [List.filter_cons_of_pos hx]
      exact ((List.prefix_cons_inj x).2 (isPrefix_filter hkeep hx hxs)).isInfix
    · rw [List.filter_cons_of_neg hx]
      exact (ih hxs.of_cons).trans (List.suffix_cons x xs).isInfix

end

/-! ### Relations in a direction -/

namespace Relation

/-- What the tests by the relations have to do with each other on two rows that are sorted in a
direction: the first one is the lower or the higher one. -/
def BelowIn (direction : Direction) (first second : Relation → Bool) : Prop :=
  match direction with
  | .ascending => Below first second
  | .descending => Below second first

/-- A relation that holds of a low and of a high outcome holds of those between, unless it is
`!=`. -/
theorem holds_of_below {low mid high : Option Ordering} {r : Relation}
    (hlow : Below (fun r => r.holds low) (fun r => r.holds mid))
    (hhigh : Below (fun r => r.holds mid) (fun r => r.holds high)) (hr : r ≠ notEqual)
    (h : r.holds low = true) (h' : r.holds high = true) : r.holds mid = true := by
  cases r with
  | greater => exact hlow.greater h
  | less => exact hhigh.less h'
  | greaterEqual => exact hlow.greaterEqual h
  | lessEqual => exact hhigh.lessEqual h'
  | equal =>
    -- To be equal is to be no less and no greater.
    have hequal : ∀ o : Option Ordering,
        equal.holds o = (greaterEqual.holds o && lessEqual.holds o) := by
      intro o
      rcases o with _ | o
      · rfl
      · cases o <;> rfl
    rw [hequal, Bool.and_eq_true] at h h' ⊢
    exact ⟨hlow.greaterEqual h.1, hhigh.lessEqual h'.2⟩
  | notEqual => exact absurd rfl hr

/-- A relation that holds at two places of an order holds between them, unless it is `!=`. -/
theorem holds_of_belowIn {direction : Direction} {first mid last : Option Ordering} {r : Relation}
    (hfirst : BelowIn direction (fun r => r.holds first) (fun r => r.holds mid))
    (hlast : BelowIn direction (fun r => r.holds mid) (fun r => r.holds last)) (hr : r ≠ notEqual)
    (h : r.holds first = true) (h' : r.holds last = true) : r.holds mid = true := by
  cases direction with
  | ascending => exact holds_of_below hfirst hlast hr h h'
  | descending => exact holds_of_below hlast hfirst hr h' h

/-- Of a cell that is missing no relation holds but `!=`. -/
theorem isNull_of_holds {v : Literal} {c : Cell} {r : Relation} (hr : r ≠ notEqual)
    (h : r.holds (c.against v) = true) : c.isNull = false := by
  cases c with
  | null =>
    have hnone : Cell.null.against v = none := by cases v <;> rfl
    rw [hnone] at h
    exact absurd (((consistent_holds none).of_missing rfl r).1 h) hr
  | _ => rfl

end Relation

/-! ### Sorted rows -/

namespace Table

variable {t : Table} {name : String} {i : Nat} {kind : Kind} {v : Literal} {direction : Direction}
  {first second : Row}

/-- Whether both rows are rows of the table, and the first one may stand before the second one. -/
structure SortedBefore (t : Table) (name : String) (direction : Direction)
    (first second : Row) : Prop where
  mem_first : first ∈ t.rows
  mem_second : second ∈ t.rows
  not_precedes : Row.precedes t.columnNames name direction second first = false

/-- The rows of a sorted table stand in this way. -/
theorem pairwise_sortedBefore (direction : Direction) (h : t.columnIndex? name = some i) :
    (t.sort i direction).rows.Pairwise (t.SortedBefore name direction) := by
  have hordered := stablyOrdered_sort direction h
  refine List.Pairwise.imp ?_ (List.Pairwise.and_mem.1 hordered.sorted)
  intro first second hpair
  exact ⟨hordered.perm.mem_iff.1 hpair.1, hordered.perm.mem_iff.1 hpair.2.1, hpair.2.2⟩

namespace SortedBefore

/-- Before a row that has a cell there are only rows that have one. -/
theorem isNull_first (h : t.SortedBefore name direction first second)
    (hsecond : (second.cell t.columnNames name).isNull = false) :
    (first.cell t.columnNames name).isNull = false := by
  have hprecedes := h.not_precedes
  rw [Row.precedes, Cell.precedes, hsecond] at hprecedes
  simp_all

/-- Of two rows that have a cell the first one does not come behind by its cell. -/
theorem isLE_orderIn (h : t.SortedBefore name direction first second)
    (hsecond : (second.cell t.columnNames name).isNull = false) :
    (Cell.orderIn direction (first.cell t.columnNames name)
      (second.cell t.columnNames name)).isLE = true := by
  have hprecedes := h.not_precedes
  rw [Row.precedes, Cell.precedes, hsecond, h.isNull_first hsecond] at hprecedes
  rw [Cell.orderIn_swap]
  cases horder : Cell.orderIn direction (second.cell t.columnNames name)
      (first.cell t.columnNames name) with
  | lt => simp [horder] at hprecedes
  | eq => rfl
  | gt => rfl

/-- The relations see two rows that have a cell in the order in which they are sorted. In descending
order it is the other row that comes first, so the two change places. -/
theorem belowIn (h : t.SortedBefore name direction first second) (hnan : t.NaNFree)
    (hkind : t.kind? name = some kind) (hv : v.IsValue kind)
    (hsecond : (second.cell t.columnNames name).isNull = false) :
    Relation.BelowIn direction
      (fun r => r.holds ((first.cell t.columnNames name).against v))
      (fun r => r.holds ((second.cell t.columnNames name).against v)) := by
  have hvalue : ∀ row ∈ t.rows, (row.cell t.columnNames name).isNull = false →
      (row.cell t.columnNames name).IsValue kind := by
    intro row hrow hthere
    refine (hnan.isValue_cell hkind hrow).resolve_left ?_
    intro hnull
    rw [hnull] at hthere
    cases hthere
  have hvalueFirst := hvalue first h.mem_first (h.isNull_first hsecond)
  have hvalueSecond := hvalue second h.mem_second hsecond
  have hle := h.isLE_orderIn hsecond
  cases direction with
  | ascending => exact Cell.below_of_order hv hvalueFirst hvalueSecond hle
  | descending => exact Cell.below_of_order hv hvalueSecond hvalueFirst hle

end SortedBefore

/-- Between two rows of which a relation holds it holds of every row, unless it is `!=`. -/
theorem unbroken_relation (hnan : t.NaNFree) (hkind : t.kind? name = some kind)
    (hv : v.IsValue kind) (direction : Direction) {r : Relation} (hr : r ≠ .notEqual) :
    Unbroken (t.SortedBefore name direction)
      fun row => r.holds ((row.cell t.columnNames name).against v) := by
  intro a b c hab hbc ha hc
  have hthere := Relation.isNull_of_holds hr hc
  exact Relation.holds_of_belowIn (hab.belowIn hnan hkind hv (hbc.isNull_first hthere))
    (hbc.belowIn hnan hkind hv hthere) hr ha hc

/-- What an unbroken test keeps of a sorted table stands side by side in it. It is enough that the
test agrees with it on the rows of the table. -/
theorem rows_filter_isInfix (hplace : t.columnIndex? name = some i) {keep keep' : Row → Bool}
    (hunbroken : Unbroken (t.SortedBefore name direction) keep')
    (hkeep : ∀ row ∈ t.rows, keep row = keep' row) :
    ((t.sort i direction).filter keep).rows <:+: (t.sort i direction).rows := by
  have hsame : (t.sort i direction).rows.filter keep = (t.sort i direction).rows.filter keep' := by
    refine List.filter_congr fun row hrow => hkeep row ?_
    exact (stablyOrdered_sort direction hplace).perm.mem_iff.1 hrow
  rw [rows_filter, hsame]
  exact isInfix_filter hunbroken (pairwise_sortedBefore direction hplace)

/-- The relations see the rows of a sorted table that have a cell in the order in which they
stand. -/
theorem pairwise_sort_below (hnan : t.NaNFree) (hplace : t.columnIndex? name = some i)
    (hkind : t.kind? name = some kind) (hv : v.IsValue kind) (direction : Direction)
    {keep : Relation → Row → Bool}
    (hkeep : ∀ row ∈ t.rows, (fun r => keep r row)
      = fun r => r.holds ((row.cell t.columnNames name).against v)) :
    (t.sort i direction).rows.Pairwise fun first second =>
      (first.cell t.columnNames name).isNull = false →
      (second.cell t.columnNames name).isNull = false →
      Relation.BelowIn direction (fun r => keep r first) (fun r => keep r second) := by
  refine (pairwise_sortedBefore direction hplace).imp ?_
  intro first second h _ hsecond
  rw [hkeep first h.mem_first, hkeep second h.mem_second]
  exact h.belowIn hnan hkind hv hsecond

end Table

/-- A comparison is tied to a table by its schema. -/
theorem Comparison.rowTest_congr {t t' : Table} (h : t.schema = t'.schema) (c : Comparison) :
    c.rowTest t = c.rowTest t' := by
  have hbindAll : Condition.bindAll t = Condition.bindAll t' := funext (Condition.bindAll_congr h)
  rw [rowTest, rowTest, hbindAll]

/-- Sorting and filtering agree on the order of a column. In a table without numbers that are none,
as all tables of records are, let two rows have a cell of the column, and let the first one stand
before the second one in the ascending order of the column. Then it passes by `<` or `<=` with a
value if the second one does, and the second one by `>` or `>=` if the first one does; in the
descending order it is the other way round. So what a comparison by one relation other than `!=`, or
by `between`, keeps of the sorted table stands side by side in it. -/
theorem sort_agrees_with_filter :
    (∀ headers records t, Table.ofRecords headers records = .ok t → t.NaNFree) ∧
    ∀ (t : Table) (name : String) (i : Nat) (kind : Kind), t.NaNFree →
      t.columnIndex? name = some i → t.kind? name = some kind →
      (∀ v : Literal, v.IsValue kind → ∃ keep : Relation → Row → Bool,
        (∀ r, Comparison.rowTest t ⟨name, .relation r, v⟩ = .ok (keep r)) ∧
        (t.sort i .ascending).rows.Pairwise (fun first second =>
          (first.cell t.columnNames name).isNull = false →
          (second.cell t.columnNames name).isNull = false →
          Relation.Below (fun r => keep r first) (fun r => keep r second)) ∧
        (t.sort i .descending).rows.Pairwise (fun first second =>
          (first.cell t.columnNames name).isNull = false →
          (second.cell t.columnNames name).isNull = false →
          Relation.Below (fun r => keep r second) (fun r => keep r first)) ∧
        ∀ direction r, r ≠ .notEqual →
          Comparison.rowTest (t.sort i direction) ⟨name, .relation r, v⟩ = .ok (keep r) ∧
          ((t.sort i direction).filter (keep r)).rows <:+: (t.sort i direction).rows) ∧
      (kind = .numeric → ∀ a b : Double, a.isNaN = false → b.isNaN = false →
        ∃ between : Row → Bool, ∀ direction,
          Comparison.rowTest (t.sort i direction) ⟨name, .between, .range a b⟩ = .ok between ∧
          ((t.sort i direction).filter between).rows <:+: (t.sort i direction).rows) := by
  refine ⟨fun headers records t => Table.nanFree_of_ofRecords, ?_⟩
  intro t name i kind hnan hplace hkind
  constructor
  · intro v hv
    obtain ⟨keep, htests, hkeep⟩ := Comparison.exists_rowTests_relation hkind hv
    refine ⟨keep, htests, Table.pairwise_sort_below hnan hplace hkind hv .ascending hkeep,
      Table.pairwise_sort_below hnan hplace hkind hv .descending hkeep, ?_⟩
    intro direction r hr
    constructor
    · rw [Comparison.rowTest_congr (t.schema_sort i direction), htests]
    · have hunbroken := Table.unbroken_relation hnan hkind hv direction hr
      exact Table.rows_filter_isInfix hplace hunbroken fun row hrow =>
        congrFun (hkeep row hrow) r
  · rintro rfl a b ha hb
    obtain ⟨least, most, between, hleast, hmost, hbetween, hlimits, -⟩ :=
      Comparison.exists_rowTest_between hkind a b
    have hva : (Literal.number a).IsValue .numeric := .number ha
    have hvb : (Literal.number b).IsValue .numeric := .number hb
    -- The limits of the range are relations, which are known to be unbroken.
    obtain ⟨_, hleast', hholds⟩ := Comparison.exists_rowTest_relation hkind hva .greaterEqual
    obtain ⟨_, hmost', hholds'⟩ := Comparison.exists_rowTest_relation hkind hvb .lessEqual
    obtain rfl := Except.ok.inj (hleast.symm.trans hleast')
    obtain rfl := Except.ok.inj (hmost.symm.trans hmost')
    refine ⟨between, fun direction => ⟨?_, ?_⟩⟩
    · rw [Comparison.rowTest_congr (t.schema_sort i direction), hbetween]
    · have hunbroken :=
        (Table.unbroken_relation hnan hkind hva direction (r := .greaterEqual) (by decide)).and
          (Table.unbroken_relation hnan hkind hvb direction (r := .lessEqual) (by decide))
      refine Table.rows_filter_isInfix hplace hunbroken fun row hrow => ?_
      rw [hlimits, hholds row hrow, hholds' row hrow]

/-- The two zeros are told apart by the sort and not by the filter, which keeps both, side by
side. -/
theorem sort_agrees_with_filter_zeros :
    ∃ t, Table.ofRecords ["n"] [["0"], [""], ["2"], ["-0"]] = .ok t ∧ t.NaNFree ∧
      t.columnIndex? "n" = some 0 ∧ t.kind? "n" = some .numeric ∧
      (Literal.number .zero).IsValue .numeric ∧
      ∃ keep : Row → Bool,
        Comparison.rowTest (t.sort 0 .descending) ⟨"n", .relation .equal, .number .zero⟩
          = .ok keep ∧
        t.rows.map keep = [true, false, false, true] ∧
        ((t.sort 0 .descending).filter keep).rows <:+: (t.sort 0 .descending).rows := by
  obtain ⟨t, ht⟩ : ∃ t, Table.ofRecords ["n"] [["0"], [""], ["2"], ["-0"]] = .ok t := ⟨_, rfl⟩
  have hnan : t.NaNFree := sort_agrees_with_filter.1 _ _ t ht
  have hplace : t.columnIndex? "n" = some 0 := by
    cases ht
    rfl
  have hkind : t.kind? "n" = some .numeric := by
    cases ht
    rfl
  have hzero : (Literal.number .zero).IsValue .numeric := .number rfl
  obtain ⟨hrelations, -⟩ := sort_agrees_with_filter.2 t "n" 0 .numeric hnan hplace hkind
  obtain ⟨keep, htests, -, -, hkept⟩ := hrelations (.number .zero) hzero
  obtain ⟨hsorted, hinfix⟩ := hkept .descending .equal (by decide)
  refine ⟨t, ht, hnan, hplace, hkind, hzero, keep .equal, hsorted, ?_, hinfix⟩
  have hequal := htests .equal
  cases ht
  rw [← Except.ok.inj hequal]
  rfl

end Roster
