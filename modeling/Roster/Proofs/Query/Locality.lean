import Roster.Proofs.Query.Misfit

/-!
# `Roster.Proofs.Query.Locality`: an answer depends on the columns that a query names

Two tables of the same number of rows agree on a name if neither has the column, or both have it, of
one kind and with the same cells. Where the column stands does not matter, and what else the tables
have does not. `answer_of_agreeOn` is the main result: if two tables agree on all names of a query,
the query fails on both for the same, or it is answered on both with the same rows in the same order
and with the same aggregates.

The rows of two such tables are not equal, so "the same rows" are the same places of rows.
`Query.places` are the places of the rows of an answer, in their order (`rows_eq_map_places`).

What a query does to a table is said with names in `Roster.Proofs.Query.Answer` and
`Roster.Proofs.Query.Misfit`, so what is left to show here is that two things are the same for both
tables: the kind of a column that is named (`AgreeOn.kind?_eq`) and the cell of a row in it
(`AgreeOn.cell_eq`). Only the look-ups before a row is touched are said with places; they fail alike
step by step (`lookUps_failsAlike`).
-/

set_option autoImplicit false

namespace Roster

namespace Table

variable {t t' : Table} {name : String}

/-- Whether two tables agree on a name: neither has the column, or both have it, of the same kind
and with the same cells from top to bottom. -/
def AgreeOn (t t' : Table) (name : String) : Prop :=
  t.column? name = none ∧ t'.column? name = none ∨
  ∃ c c', t.column? name = some c ∧ t'.column? name = some c' ∧
    c.values.kind = c'.values.kind ∧ c.values.toList = c'.values.toList

/-- A column that two tables agree on has the same kind in both. -/
theorem AgreeOn.kind?_eq (h : t.AgreeOn t' name) : t.kind? name = t'.kind? name := by
  rcases h with ⟨ht, ht'⟩ | ⟨c, c', hc, hc', hkind, -⟩
  · rw [kind?, kind?, ht, ht']
  · rw [kind?, kind?, hc, hc', Option.map_some, Option.map_some, hkind]

/-- The cell of a row in the column of a name is the one of the column. -/
theorem cell_row (t : Table) (i : Nat) (name : String) :
    (t.row i).cell t.columnNames name
      = (t.column? name).elim .null fun c => c.values.get i := by
  rw [Row.cell, columnNames, row, List.zip_map', column?]
  induction t.columns with
  | nil => rfl
  | cons c columns ih =>
    rw [List.map_cons, List.lookup_cons, List.find?_cons, BEq.comm]
    cases c.name == name with
    | true => rfl
    | false => exact ih

/-- A column that two tables agree on has the same cell in every row. -/
theorem AgreeOn.cell_eq (h : t.AgreeOn t' name) (i : Nat) :
    (t.row i).cell t.columnNames name = (t'.row i).cell t'.columnNames name := by
  rw [cell_row, cell_row]
  rcases h with ⟨ht, ht'⟩ | ⟨c, c', hc, hc', -, hcells⟩
  · rw [ht, ht']
  · rw [hc, hc', Option.elim_some, Option.elim_some, ← Values.getD_toList, hcells,
      Values.getD_toList]

end Table

namespace Query

variable {q : Query} {t t' : Table} {r : Answer}

/-! ### Places -/

/-- The places of the rows that meet every condition, from top to bottom. -/
def keptPlaces (q : Query) (t : Table) : List Nat :=
  (List.range t.rowCount).filter fun i => ∀ c ∈ q.conditions, c.Meets t.columnNames (t.row i)

/-- The places of the rows of an answer, in their order. -/
def places (q : Query) (t : Table) : List Nat :=
  match q.order with
  | none => q.keptPlaces t
  | some o => (q.keptPlaces t).mergeSort fun i j =>
      Cell.mayPrecede o.direction ((t.row i).cell t.columnNames o.column)
        ((t.row j).cell t.columnNames o.column)

/-- The rows that are kept are those at the places that are kept. -/
theorem kept_eq_map (q : Query) (t : Table) : q.kept t = (q.keptPlaces t).map t.row := by
  rw [kept, keptPlaces, Table.rows, List.filter_map]
  rfl

/-- An order moves places and neither adds nor drops any. -/
theorem places_perm (q : Query) (t : Table) : (q.places t).Perm (q.keptPlaces t) := by
  unfold places
  split
  · exact .refl _
  · exact List.mergeSort_perm _ _

/-- No row is answered twice. -/
theorem nodup_places (q : Query) (t : Table) : (q.places t).Nodup :=
  (q.places_perm t).nodup_iff.2 (List.nodup_range.filter _)

/-- The places of an answer are places of the table. -/
theorem lt_of_mem_places {i : Nat} (h : i ∈ q.places t) : i < t.rowCount :=
  List.mem_range.1 (List.mem_filter.1 ((q.places_perm t).mem_iff.1 h)).1

/-- The rows of an answer are the rows at its places. -/
theorem rows_eq_map_places (h : q.IsAnswer t r) : r.rows = (q.places t).map t.row := by
  refine h.rows.unique ?_
  rw [kept_eq_map, places]
  cases q.order with
  | none => rfl
  | some o =>
    show StablyOrdered (Row.precedes t.columnNames o.column o.direction) _ _
    dsimp only
    rw [List.map_mergeSort (s := fun r s : Row => Cell.mayPrecede o.direction
      (r.cell t.columnNames o.column) (s.cell t.columnNames o.column)) fun _ _ _ _ => rfl]
    exact Row.stablyOrdered_mergeSort _ _ _ _

/-! ### Names -/

/-- The columns that a query names. -/
def names (q : Query) : List String :=
  (q.conditions.flatMap fun c => c.leaves.map Predicate.column)
    ++ q.order.toList.map SortOrder.column ++ q.aggregates.map Aggregate.column

/-- Two tables of the same number of rows that agree on all that a query names. -/
structure Agree (q : Query) (t t' : Table) : Prop where
  rowCount_eq : t.rowCount = t'.rowCount
  agreeOn : ∀ name ∈ q.names, t.AgreeOn t' name

namespace Agree

/-- Tables agree on the columns of all conditions. -/
theorem predicate (h : q.Agree t t') {c : Condition} (hc : c ∈ q.conditions) {p : Predicate}
    (hp : p ∈ c.inOrder) : t.AgreeOn t' p.column := by
  refine h.agreeOn _ (List.mem_append_left _ (List.mem_append_left _ ?_))
  rw [← Clause.leaves_eq_inOrder] at hp
  exact List.mem_flatMap.2 ⟨c, hc, List.mem_map_of_mem hp⟩

/-- They agree on the column of the order. -/
theorem order (h : q.Agree t t') {o : SortOrder} (ho : q.order = some o) :
    t.AgreeOn t' o.column :=
  h.agreeOn _ (List.mem_append_left _ (List.mem_append_right _ (by simp [ho])))

/-- They agree on the columns of all aggregates. -/
theorem aggregate (h : q.Agree t t') {a : Aggregate} (ha : a ∈ q.aggregates) :
    t.AgreeOn t' a.column :=
  h.agreeOn _ (List.mem_append_right _ (List.mem_map_of_mem ha))

/-- A row meets a condition in both tables or in neither. -/
theorem meets_iff (h : q.Agree t t') {c : Condition} (hc : c ∈ q.conditions) (i : Nat) :
    c.Meets t.columnNames (t.row i) ↔ c.Meets t'.columnNames (t'.row i) := by
  have hcell : ∀ p ∈ c.inOrder,
      (t.row i).cell t.columnNames p.column = (t'.row i).cell t'.columnNames p.column :=
    fun p hp => (h.predicate hc hp).cell_eq i
  clear hc
  induction c with
  | leaf p => rw [Condition.Meets, Condition.Meets, hcell p (List.mem_singleton_self p)]
  | and left right hleft hright =>
    obtain ⟨hl, hr⟩ := List.forall_mem_append.1 hcell
    exact and_congr (hleft hl) (hright hr)
  | or left right hleft hright =>
    obtain ⟨hl, hr⟩ := List.forall_mem_append.1 hcell
    exact or_congr (hleft hl) (hright hr)

/-- A row is kept in both tables or in neither. -/
theorem keptPlaces_eq (h : q.Agree t t') : q.keptPlaces t = q.keptPlaces t' := by
  rw [keptPlaces, keptPlaces, h.rowCount_eq]
  refine List.filter_congr fun i _ => ?_
  rw [decide_eq_decide]
  exact forall₂_congr fun c hc => h.meets_iff hc i

/-- The rows of both answers stand at the same places. -/
theorem places_eq (h : q.Agree t t') : q.places t = q.places t' := by
  unfold places
  rw [h.keptPlaces_eq]
  split
  · rfl
  · rename_i o ho
    simp only [(h.order ho).cell_eq]

/-- An aggregate has the same numbers in the rows that are kept. -/
theorem numbersIn_eq (h : q.Agree t t') {a : Aggregate} (ha : a ∈ q.aggregates) :
    a.numbersIn t.columnNames (q.kept t) = a.numbersIn t'.columnNames (q.kept t') := by
  rw [kept_eq_map, kept_eq_map, h.keptPlaces_eq, Aggregate.numbersIn, Aggregate.numbersIn,
    List.filterMap_map, List.filterMap_map]
  refine List.filterMap_congr fun i _ => ?_
  rw [Function.comp_apply, Function.comp_apply, (h.aggregate ha).cell_eq]

/-- An aggregate has the same value in both tables. -/
theorem entry_eq (h : q.Agree t t') {a : Aggregate} (ha : a ∈ q.aggregates) :
    a.entry t.columnNames (q.kept t) = a.entry t'.columnNames (q.kept t') := by
  have hlength : (q.kept t).length = (q.kept t').length := by
    rw [kept_eq_map, kept_eq_map, List.length_map, List.length_map, h.keptPlaces_eq]
  rw [Aggregate.entry, Aggregate.entry, Aggregate.valueOver, Aggregate.valueOver,
    h.numbersIn_eq ha, hlength]

/-! ### Faults -/

/-- Binding fails for both tables at the same predicate, and for the same reason. -/
theorem bindAll_failsAlike (h : q.Agree t t') :
    FailsAlike (Condition.bindAll t q.conditions) (Condition.bindAll t' q.conditions) := by
  intro e
  rw [Condition.bindAll_eq_error_iff, Condition.bindAll_eq_error_iff]
  refine FailsAlike.mapM (fun p hp e => ?_) e
  obtain ⟨c, hc, hp⟩ := List.mem_flatMap.1 hp
  rw [Predicate.bind_eq_error_iff, Predicate.bind_eq_error_iff, (h.predicate hc hp).kind?_eq]

/-- A column that two tables agree on is found in both or in neither. -/
theorem lookUp_failsAlike {column : String} (h : t.AgreeOn t' column) :
    FailsAlike (t.lookUp column) (t'.lookUp column) := by
  intro e
  rw [Table.lookUp_eq_error_iff, Table.lookUp_eq_error_iff, h.kind?_eq]

/-- What is looked up is in both tables, or it is not for the same reason. -/
theorem lookUps_failsAlike (h : q.Agree t t') : FailsAlike (q.lookUps t) (q.lookUps t') := by
  refine h.bindAll_failsAlike.bind fun _ _ _ _ => FailsAlike.bind ?_ fun _ _ _ _ =>
    FailsAlike.bind (FailsAlike.mapM fun a ha => lookUp_failsAlike (h.aggregate ha))
      fun _ _ _ _ => .of_ok _ _
  · cases ho : q.order with
    | none => exact .of_ok _ _
    | some o =>
      show FailsAlike (Except.map some _) (Except.map some _)
      exact ((lookUp_failsAlike (h.order ho)).bind fun _ _ _ _ => .of_ok _ _).map _ _

/-- A query fails on both tables for the same, or it is answered on both. -/
theorem answer_failsAlike (h : q.Agree t t') (emptyAverage : EmptyAverage) :
    FailsAlike (q.answer emptyAverage t) (q.answer emptyAverage t') := by
  refine answer_failsAlike_of_aggregates rfl h.lookUps_failsAlike ?_ ?_
  · intro a ha
    rw [Aggregate.Fits, Aggregate.Fits, (h.aggregate ha).kind?_eq]
  · intro a ha
    rw [Aggregate.Faults, Aggregate.Faults, h.numbersIn_eq ha]

end Agree

/-- A query sees the number of rows of a table and the columns that it names, and nothing else. On
two tables that agree on these it fails for the same, or it is answered with the rows at the same
places, in the same order, and with the same aggregates. -/
theorem answer_of_agreeOn (hrowCount : t.rowCount = t'.rowCount)
    (hagree : ∀ name ∈ q.names, t.AgreeOn t' name) (emptyAverage : EmptyAverage) :
    (∃ cause, q.answer emptyAverage t = .error cause ∧ q.answer emptyAverage t' = .error cause) ∨
    ∃ r r', q.answer emptyAverage t = .ok r ∧ q.answer emptyAverage t' = .ok r' ∧
      r.rows = (q.places t).map t.row ∧ r'.rows = (q.places t').map t'.row ∧
      q.places t = q.places t' ∧ (q.places t).Nodup ∧ (∀ i ∈ q.places t, i < t.rowCount) ∧
      r.rowCount = r'.rowCount ∧ r.aggregates = r'.aggregates := by
  have h : q.Agree t t' := ⟨hrowCount, hagree⟩
  cases hr : q.answer emptyAverage t with
  | error cause => exact .inl ⟨cause, rfl, (h.answer_failsAlike emptyAverage cause).1 hr⟩
  | ok r =>
    obtain ⟨r', hr'⟩ := (h.answer_failsAlike emptyAverage).exists_ok_iff.1 ⟨r, hr⟩
    obtain ⟨-, -, hanswer⟩ := isAnswer_of_answer hr
    obtain ⟨-, -, hanswer'⟩ := isAnswer_of_answer hr'
    have hrows := rows_eq_map_places hanswer
    have hrows' := rows_eq_map_places hanswer'
    refine .inr ⟨r, r', rfl, hr', hrows, hrows', h.places_eq, q.nodup_places t,
      fun i => lt_of_mem_places, ?_, ?_⟩
    · rw [hanswer.rowCount, hanswer'.rowCount, hrows, hrows', h.places_eq, List.length_map,
        List.length_map]
    · rw [hanswer.aggregates, hanswer'.aggregates]
      exact List.map_congr_left fun a => h.entry_eq

/-- A query of two columns sees neither the two others of the wider table nor that its columns stand
there the other way round. -/
theorem answer_of_agreeOn_wider :
    let q : Query := {
      conditions := [.leaf ⟨"s", .text .notEqual "b"⟩]
      aggregates := [⟨.sum, "n"⟩, ⟨.count, "s"⟩]
      order := some ⟨"n", .descending⟩ }
    ∃ t t' : Table,
      Table.ofCells ["n", "s"] [[.null, .text "a"], [.number .zero, .null]] = .ok t ∧
      Table.ofCells ["x", "s", "y", "n"] [[.text "a", .text "a", .number .zero, .null],
        [.text "b", .null, .null, .number .zero]] = .ok t' ∧
      t.rowCount = t'.rowCount ∧ (∀ name ∈ q.names, t.AgreeOn t' name) ∧
      ((∃ cause, q.answer .fault t = .error cause ∧ q.answer .fault t' = .error cause) ∨
      ∃ r r', q.answer .fault t = .ok r ∧ q.answer .fault t' = .ok r' ∧
        r.rows = (q.places t).map t.row ∧ r'.rows = (q.places t').map t'.row ∧
        q.places t = q.places t' ∧ (q.places t).Nodup ∧ (∀ i ∈ q.places t, i < t.rowCount) ∧
        r.rowCount = r'.rowCount ∧ r.aggregates = r'.aggregates) := by
  intro q
  let t : Table := {
    columns := [⟨"n", .numbers #[none, some .zero]⟩, ⟨"s", .texts #[some "a", none]⟩]
    rowCount := 2
    size_eq := by simp [Values.size]
    nodup := by simp
    rowCount_eq_zero := by simp }
  let t' : Table := {
    columns := [⟨"x", .texts #[some "a", some "b"]⟩, ⟨"s", .texts #[some "a", none]⟩,
      ⟨"y", .numbers #[some .zero, none]⟩, ⟨"n", .numbers #[none, some .zero]⟩]
    rowCount := 2
    size_eq := by simp [Values.size]
    nodup := by simp
    rowCount_eq_zero := by simp }
  have hnumbers : t.AgreeOn t' "n" := .inr ⟨_, _, rfl, rfl, rfl, rfl⟩
  have htexts : t.AgreeOn t' "s" := .inr ⟨_, _, rfl, rfl, rfl, rfl⟩
  -- The query names its two columns twice each, and nothing of the others.
  have hagree : ∀ name ∈ q.names, t.AgreeOn t' name := by
    have hnames : q.names = ["s", "n", "n", "s"] := by
      simp [names, q, Clause.leaves, Clause.leavesOf]
    simp [hnames, hnumbers, htexts]
  have hrowCount : t.rowCount = t'.rowCount := rfl
  exact ⟨t, t', rfl, rfl, hrowCount, hagree, answer_of_agreeOn hrowCount hagree .fault⟩

end Query

end Roster
