import Roster.Proofs.Clause
import Roster.Proofs.Table.Rows
import Roster.Query.Condition

/-!
# `Roster.Proofs.Query.Binding`: what conditions mean once they are tied to places

A condition names its columns, and what is run names places. This file says what a condition
means without any place: `Condition.Meets` reads `and` and `or` as logic does, and applies every
test to the cell in the column of its name. `Predicate.Fits` says which predicates can be tied to
a table at all: the column is there, and is of the kind of the test.

`bindAll_eq_ok_iff` is what is proved of binding: it succeeds exactly if all predicates fit, and
gives the test of rows that holds of those that meet every condition. It fails as the first of all
predicates that does not fit, whatever joins them (`bindAll_eq_error_iff`), and only the schema of
the table matters (`bindAll_congr`). Where no `or` stands in the conditions, binding sees nothing
of them but the list of their predicates (`bindAll_eq_of_orFree`).
-/

set_option autoImplicit false

namespace Roster

/-- Whether a predicate can be tied to a table. -/
def Predicate.Fits (t : Table) (p : Predicate) : Prop := t.kind? p.column = some p.test.kind

/-- Whether a row meets a condition, given the names of its columns. -/
def Condition.Meets (names : List String) (row : Row) : Condition → Prop
  | .leaf p => p.test.passes (row.cell names p.column) = true
  | .and left right => Meets names row left ∧ Meets names row right
  | .or left right => Meets names row left ∨ Meets names row right

/-- To meet a condition is that it holds of the tests of the named cells. -/
theorem Condition.meets_iff_holds {names : List String} {row : Row} {c : Condition} :
    c.Meets names row ↔ c.holds (fun p => p.test.passes (row.cell names p.column)) = true := by
  induction c with
  | leaf p => rfl
  | and left right hleft hright => rw [Meets, Clause.holds, Bool.and_eq_true, hleft, hright]
  | or left right hleft hright => rw [Meets, Clause.holds, Bool.or_eq_true, hleft, hright]

/-- A condition is tested on a row by its filter. -/
instance (names : List String) (row : Row) (c : Condition) :
    Decidable (c.Meets names row) :=
  decidable_of_iff _ Condition.meets_iff_holds.symm

/-- A predicate is bound exactly if it fits, to the place of its column. -/
theorem Predicate.bind_eq_ok_iff {t : Table} {p : Predicate} {b : BoundTest} :
    p.bind t = .ok b
      ↔ p.Fits t ∧ t.columnIndex? p.column = some b.index ∧ b.test = p.test := by
  rw [Fits, Table.kind?, Table.column?_eq_bind, bind]
  cases hplace : t.columnIndex? p.column with
  | none => simp
  | some i =>
    obtain ⟨c, hc, -⟩ := Table.exists_column_of_columnIndex? hplace
    obtain ⟨index, test⟩ := b
    simp only [hc, Option.elim_some, Option.bind_some, Option.map_some, Option.some.injEq]
    by_cases hkind : p.test.kind = c.values.kind
    · rw [if_pos hkind]
      simp [hkind, eq_comm]
    · rw [if_neg hkind]
      simp [Ne.symm hkind]

/-- A predicate fails to be bound because its column is not there, or is of another kind. -/
theorem Predicate.bind_eq_error_iff {t : Table} {p : Predicate} {cause : QueryError} :
    p.bind t = .error cause
      ↔ t.kind? p.column = none ∧ cause = .unknownColumn p.column ∨
        ∃ kind, t.kind? p.column = some kind ∧ p.test.kind ≠ kind ∧
          cause = .columnMismatch p.column kind p.test.literal := by
  rw [bind]
  cases hplace : t.columnIndex? p.column with
  | none => simp [Table.kind?_eq_none_iff.2 hplace, eq_comm]
  | some i =>
    obtain ⟨c, hc, -⟩ := Table.exists_column_of_columnIndex? hplace
    rw [Table.kind?_eq_some hplace hc]
    simp only [hc, Option.elim_some]
    split <;> simp_all [eq_comm]

/-- Binding looks at nothing but the schema. -/
theorem Predicate.bind_congr {t t' : Table} (h : t.schema = t'.schema) (p : Predicate) :
    p.bind t = p.bind t' := by
  have helim : ∀ (t : Table) (i : Nat), (t.columns[i]?).elim .numeric (fun c => c.values.kind)
      = ((t.columns[i]?).map fun c => c.values.kind).getD .numeric := by
    intro t i
    cases t.columns[i]? <;> rfl
  rw [bind, bind, Table.columnIndex?_congr h]
  simp only [helim, Table.kind_getElem?_congr h]

/-- A bound predicate tests the cell in the column of its name. -/
theorem BoundTest.passes_of_bind {t : Table} {p : Predicate} {b : BoundTest}
    (h : p.bind t = .ok b) (row : Row) :
    b.passes row = p.test.passes (row.cell t.columnNames p.column) := by
  obtain ⟨-, hplace, htest⟩ := Predicate.bind_eq_ok_iff.1 h
  rw [Table.columnIndex?_eq] at hplace
  rw [passes, htest, Row.getD_eq_cell hplace]

namespace Condition

variable {t : Table}

/-- A condition is bound exactly if all its predicates fit. -/
theorem exists_bind_eq_ok_iff {c : Condition} :
    (∃ d, c.bind t = .ok d) ↔ ∀ p ∈ c.inOrder, p.Fits t := by
  rw [Condition.bind, Clause.exists_mapLeaves_eq_ok_iff]
  refine forall₂_congr fun p _ => ?_
  constructor
  · rintro ⟨b, hb⟩
    exact (Predicate.bind_eq_ok_iff.1 hb).1
  · intro hfits
    obtain ⟨i, hplace⟩ := Table.exists_columnIndex?_of_kind? hfits
    exact ⟨⟨i, p.test⟩, Predicate.bind_eq_ok_iff.2 ⟨hfits, hplace, rfl⟩⟩

/-- A bound condition holds of the rows that meet the condition. -/
theorem holds_of_bind {c : Condition} {d : Clause BoundTest} (h : c.bind t = .ok d) (row : Row) :
    d.holds (BoundTest.passes row) = true ↔ c.Meets t.columnNames row := by
  rw [meets_iff_holds, Clause.holds_of_mapLeaves (fun _ _ hp => BoundTest.passes_of_bind hp row) h]

/-- Bound conditions all hold of the rows that meet all the conditions. -/
theorem all_holds_of_bind {conditions : List Condition} {bound : List (Clause BoundTest)}
    (h : List.Forall₂ (fun c d => bind t c = .ok d) conditions bound) (row : Row) :
    bound.all (fun d => d.holds (BoundTest.passes row)) = true
      ↔ ∀ c ∈ conditions, c.Meets t.columnNames row := by
  induction h with
  | nil => simp
  | cons hc _ ih => rw [List.all_cons, Bool.and_eq_true, List.forall_mem_cons, holds_of_bind hc, ih]

/-- Conditions can be tied to a table exactly if all their predicates fit. They are then the test
of rows that holds of those that meet all of them. -/
theorem bindAll_eq_ok_iff {conditions : List Condition} {keep : Row → Bool} :
    bindAll t conditions = .ok keep
      ↔ (∀ c ∈ conditions, ∀ p ∈ c.inOrder, p.Fits t) ∧
        keep = fun row => decide (∀ c ∈ conditions, c.Meets t.columnNames row) := by
  -- Whether there is a bound condition for each and what all of them test are two questions.
  have hexists : (∃ bound, conditions.mapM (bind t) = .ok bound)
      ↔ ∀ c ∈ conditions, ∀ p ∈ c.inOrder, p.Fits t := by
    rw [exists_mapM_eq_ok_iff]
    exact forall₂_congr fun c _ => exists_bind_eq_ok_iff
  have hmeets : ∀ {bound}, conditions.mapM (bind t) = .ok bound →
      (fun row => bound.all fun d => d.holds (BoundTest.passes row))
        = fun row => decide (∀ c ∈ conditions, c.Meets t.columnNames row) := by
    intro bound hbound
    funext row
    rw [Bool.eq_iff_iff, decide_eq_true_iff]
    exact all_holds_of_bind (mapM_eq_ok_iff.1 hbound) row
  rw [bindAll, bind_eq_ok_iff, ← hexists]
  constructor
  · rintro ⟨bound, hbound, hkeep⟩
    cases hkeep
    exact ⟨⟨bound, hbound⟩, hmeets hbound⟩
  · rintro ⟨⟨bound, hbound⟩, rfl⟩
    exact ⟨bound, hbound, congrArg Except.ok (hmeets hbound)⟩

/-- Conditions fail to be tied to a table as the first of their predicates that does, whatever
joins these. -/
theorem bindAll_eq_error_iff {conditions : List Condition} {cause : QueryError} :
    bindAll t conditions = .error cause
      ↔ (conditions.flatMap Clause.inOrder).mapM (Predicate.bind t) = .error cause := by
  have hreturn : ∀ {x : Except QueryError (List (Clause BoundTest))}
      {f : List (Clause BoundTest) → Row → Bool},
      (do return f (← x)) = Except.error cause ↔ x = .error cause := by
    intro x f
    cases x <;> simp [bind_eq_error_iff, pure, Except.pure]
  rw [bindAll, hreturn, ← Clause.map_inOrder_mapM_mapLeaves, map_eq_error_iff]
  rfl

/-- Binding conditions looks at nothing but the schema. -/
theorem bindAll_congr {t' : Table} (h : t.schema = t'.schema) (conditions : List Condition) :
    bindAll t conditions = bindAll t' conditions := by
  have hbind : Predicate.bind t = Predicate.bind t' := funext (Predicate.bind_congr h)
  have hconditions : Condition.bind t = Condition.bind t' := by
    funext c
    rw [Condition.bind, Condition.bind, hbind]
  rw [bindAll, bindAll, hconditions]

/-- A single predicate that fits is the test of the cell in its column. -/
theorem bindAll_leaf {p : Predicate} (hfits : p.Fits t) :
    bindAll t [.leaf p] = .ok fun row => p.test.passes (row.cell t.columnNames p.column) := by
  refine bindAll_eq_ok_iff.2 ⟨by simpa [Clause.inOrder] using hfits, ?_⟩
  funext row
  simp [Meets]

/-- Conditions are tied to a table one after the other, and a row has to pass all of them. -/
theorem bindAll_append (xs ys : List Condition) :
    bindAll t (xs ++ ys) = (do
      let keep ← bindAll t xs
      let keep' ← bindAll t ys
      return fun row => keep row && keep' row) := by
  simp only [bindAll, List.mapM_append, bind_assoc, pure_bind, List.all_append]

/-! ### Conditions as lists of predicates -/

variable {names : List String} {row : Row} {conditions others : List Condition}

/-- A row that passes all predicates meets the conditions, whatever joins them. -/
theorem meets_of_passes
    (h : ∀ p ∈ conditions.flatMap Clause.inOrder, p.test.passes (row.cell names p.column) = true) :
    ∀ c ∈ conditions, c.Meets names row := by
  intro c hc
  rw [meets_iff_holds]
  exact Clause.holds_of_forall fun p hp => h p (List.mem_flatMap.2 ⟨c, hc, hp⟩)

/-- Without an `or` a row meets conditions only if it passes all their predicates. -/
theorem forall_meets_iff (horFree : ∀ c ∈ conditions, c.OrFree) :
    (∀ c ∈ conditions, c.Meets names row)
      ↔ ∀ p ∈ conditions.flatMap Clause.inOrder,
          p.test.passes (row.cell names p.column) = true := by
  refine ⟨fun h p hp => ?_, meets_of_passes⟩
  obtain ⟨c, hc, hp⟩ := List.mem_flatMap.1 hp
  exact (horFree c hc).holds_iff.1 (meets_iff_holds.1 (h c hc)) p hp

/-- Conditions without `or` are bound alike if their predicates are the same. -/
theorem bindAll_eq_of_orFree
    (hsame : conditions.flatMap Clause.inOrder = others.flatMap Clause.inOrder)
    (hconditions : ∀ c ∈ conditions, c.OrFree) (hothers : ∀ c ∈ others, c.OrFree) :
    bindAll t conditions = bindAll t others := by
  cases hkeep : bindAll t conditions with
  | error cause => rw [bindAll_eq_error_iff.2 (hsame ▸ bindAll_eq_error_iff.1 hkeep)]
  | ok keep =>
    obtain ⟨hfits, rfl⟩ := bindAll_eq_ok_iff.1 hkeep
    refine (bindAll_eq_ok_iff.2 ⟨?_, ?_⟩).symm
    · intro c hc p hp
      obtain ⟨d, hd, hpd⟩ :=
        List.mem_flatMap.1 (hsame ▸ List.mem_flatMap.2 ⟨c, hc, hp⟩ : p ∈ conditions.flatMap _)
      exact hfits d hd p hpd
    · funext row
      rw [decide_eq_decide, forall_meets_iff hconditions, forall_meets_iff hothers, hsame]

end Condition

end Roster
