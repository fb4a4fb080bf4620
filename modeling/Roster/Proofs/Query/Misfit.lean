import Roster.Proofs.Query.Answer

/-!
# `Roster.Proofs.Query.Misfit`: how a query fails that does not fit its table

A query is looked up before a row is touched: the predicates of its conditions, the column of its
order and the columns of its aggregates, in this order. `Query.lookUps` is this part of
`Query.answer`. It sees the schema of the table and nothing else (`lookUps_congr`), and what it
fails with is a misfit, a name that is not there or a predicate of the wrong kind.

Whether the column of an aggregate is one of numbers is not part of it. That is found when the
aggregate is taken, one aggregate after the other, over the rows that are kept. So an average of
nothing, where that is a fault, comes before the misfit of an aggregate that is asked for later:
`Query.EmptyFirst` says of which average this holds.

Only what is looked up, the fit of the aggregates and the empty averages matter, so two queries fail
alike if they have these in common (`answer_failsAlike_of_aggregates`).

`answer_of_not_fits` is the main result. For a query that does not fit there is one misfit, which
every table of the schema gives with either reading of empty averages, unless an empty average
comes first; and then it is that average's fault. `answer_empty_average_first` is such a case.
-/

set_option autoImplicit false

namespace Roster

/-- Whether a fault is about what a query names: a column that is not there, or one that holds
values of another kind. -/
def QueryError.IsMisfit : QueryError → Prop
  | .unknownColumn _ | .columnMismatch .. | .nonNumericAggregate .. => True
  | _ => False

namespace Aggregate

variable {a : Aggregate} {t t' : Table} {i : Nat} {cause : QueryError}

/-- The fault of an aggregate that calculates with a column of texts. -/
def misfit (a : Aggregate) : QueryError := .nonNumericAggregate a.function a.column .text

/-- An aggregate whose column is there fits, unless it calculates with texts. -/
theorem not_fits_iff {kind : Kind} (h : t.kind? a.column = some kind) :
    ¬a.Fits t ↔ a.function ≠ .count ∧ kind = .text := by
  simp only [Fits, h, Option.some.injEq, exists_eq_left']
  cases kind <;> simp

/-- Whether an aggregate fits is a matter of the schema. -/
theorem fits_congr (h : t.schema = t'.schema) (a : Aggregate) : a.Fits t ↔ a.Fits t' := by
  rw [Fits, Fits, Table.kind?_congr h]

/-- There are no numbers in a column of texts. -/
theorem numbers_eq_error_iff (h : t.columnIndex? a.column = some i) :
    a.numbers t i = .error cause ↔ t.kind? a.column = some .text ∧ cause = a.misfit := by
  obtain ⟨c, hc, -⟩ := Table.exists_column_of_columnIndex? h
  rw [Table.kind?_eq_some h hc, numbers, hc]
  cases hkind : c.values.kind <;> simp [misfit, hkind, eq_comm]

/-- An aggregate fails in two ways: it does not fit, or it is an average of nothing and has to
fail for that. -/
theorem value_eq_error_iff (h : t.columnIndex? a.column = some i) {emptyAverage : EmptyAverage} :
    a.value emptyAverage t i = .error cause
      ↔ ¬a.Fits t ∧ cause = a.misfit ∨
        a.Fits t ∧ a.Faults emptyAverage t.columnNames t.rows ∧
          cause = .emptyAverage a.column := by
  obtain ⟨c, hc, -⟩ := Table.exists_column_of_columnIndex? h
  have hkind := Table.kind?_eq_some h hc
  have hfits := not_fits_iff hkind
  unfold value
  cases hfunction : a.function with
  | count => simp_all [Faults]
  | sum =>
    rw [map_eq_error_iff, numbers_eq_error_iff h, hfits, hkind, hfunction]
    simp [Faults, hfunction]
  | average =>
    rw [bind_eq_error_iff, numbers_eq_error_iff h, hkind, Option.some.injEq, hfits, hfunction]
    refine or_congr (by simp) ?_
    -- The column has numbers; what is left is whether any of them stand in the rows.
    constructor
    · rintro ⟨xs, hxs, hempty⟩
      obtain ⟨hnumeric, rfl⟩ := (numbers_eq_ok_iff h).1 hxs
      refine ⟨⟨_, hnumeric, .inr rfl⟩, ?_⟩
      split at hempty
      · rename_i hnone
        cases emptyAverage with
        | nan => cases hempty
        | fault =>
          cases hempty
          exact ⟨⟨rfl, hfunction, List.isEmpty_iff.1 hnone⟩, rfl⟩
      · cases hempty
    · rintro ⟨⟨kind, hnumeric, hcount | rfl⟩, ⟨rfl, -, hnone⟩, rfl⟩
      · simp [hfunction] at hcount
      · exact ⟨_, (numbers_eq_ok_iff h).2 ⟨hnumeric, rfl⟩, by rw [hnone]; rfl⟩

/-- Each aggregate goes with the place of its column. -/
theorem zip_places {requests : List Aggregate} {places : List Nat}
    (h : List.Forall₂ (fun a i => t.lookUp a.column = .ok i) requests places) :
    requests.zip places = requests.map fun a => (a, (t.columnIndex? a.column).getD 0) := by
  induction h with
  | nil => rfl
  | cons hi _ ih => rw [List.zip_cons_cons, List.map_cons, ih, Table.lookUp_eq_ok_iff.1 hi]; rfl

end Aggregate

namespace Query

variable {q : Query} {emptyAverage : EmptyAverage} {t t' : Table} {cause : QueryError}

/-! ### What cannot be looked up -/

/-- A query fails with what cannot be looked up, or else with an aggregate. -/
theorem answer_eq_error_iff :
    q.answer emptyAverage t = .error cause
      ↔ q.lookUps t = .error cause ∨
        ∃ keep order places, q.lookUps t = .ok (keep, order, places) ∧
          q.entries emptyAverage t keep places = .error cause := by
  rw [answer_eq_bind, bind_eq_error_iff]
  refine or_congr_right ?_
  constructor
  · rintro ⟨⟨keep, order, places⟩, hlookUps, h⟩
    rcases bind_eq_error_iff.1 h with hentries | ⟨entries, -, hreturn⟩
    · exact ⟨keep, order, places, hlookUps, hentries⟩
    · cases hreturn
  · rintro ⟨keep, order, places, hlookUps, hentries⟩
    exact ⟨_, hlookUps, bind_eq_error_iff.2 (.inl hentries)⟩

/-- Only the schema of a table is looked at. -/
theorem lookUps_congr (h : t.schema = t'.schema) (q : Query) : q.lookUps t = q.lookUps t' := by
  have hlookUp : t.lookUp = t'.lookUp := by
    funext column
    rw [Table.lookUp, Table.lookUp, Table.columnIndex?_congr h]
  rw [lookUps, lookUps, Condition.bindAll_congr h, hlookUp]

/-- A name that cannot be looked up is a misfit. -/
theorem isMisfit_of_lookUp {column : String} (h : t.lookUp column = .error cause) :
    cause.IsMisfit := by
  rw [Table.lookUp] at h
  split at h <;> cases h
  trivial

/-- A predicate that cannot be bound is a misfit. -/
theorem isMisfit_of_bind {p : Predicate} (h : p.bind t = .error cause) : cause.IsMisfit := by
  unfold Predicate.bind at h
  split at h
  · cases h
    trivial
  · dsimp only at h
    split at h <;> cases h
    trivial

/-- What cannot be looked up is a misfit. -/
theorem isMisfit_of_lookUps (h : q.lookUps t = .error cause) : cause.IsMisfit := by
  -- One step for each pass: the conditions, the order, the columns of the aggregates.
  rcases bind_eq_error_iff.1 h with hkeep | ⟨keep, -, h⟩
  · obtain ⟨_, p, _, -, -, hp⟩ := mapM_eq_error_iff.1 (Condition.bindAll_eq_error_iff.1 hkeep)
    exact isMisfit_of_bind hp
  rcases bind_eq_error_iff.1 h with horder | ⟨order, -, h⟩
  · cases ho : q.order with
    | none =>
      rw [ho] at horder
      cases horder
    | some o =>
      rw [ho] at horder
      rcases bind_eq_error_iff.1 (map_eq_error_iff.1 horder) with hplace | ⟨_, -, hreturn⟩
      · exact isMisfit_of_lookUp hplace
      · cases hreturn
  rcases bind_eq_error_iff.1 h with hplaces | ⟨places, -, h⟩
  · obtain ⟨_, a, _, -, -, ha⟩ := mapM_eq_error_iff.1 hplaces
    exact isMisfit_of_lookUp ha
  · cases h

/-! ### What the aggregates fail with -/

/-- Whether an average is the first aggregate of a query that fails, for there being nothing to
take it of: all that is looked up is there, and the aggregates that are asked for before it can
be taken. -/
structure EmptyFirst (q : Query) (emptyAverage : EmptyAverage) (t : Table) (a : Aggregate) :
    Prop where
  found : q.Found t
  fits : a.Fits t
  faults : a.Faults emptyAverage t.columnNames (q.kept t)
  first : ∃ before after, q.aggregates = before ++ a :: after ∧
    ∀ b ∈ before, b.Fits t ∧ ¬b.Faults emptyAverage t.columnNames (q.kept t)

/-- The aggregates of a query fail as the first of them that does. Its fault is a misfit if it does
not fit its column, and otherwise that of an empty average; all before it have values. -/
theorem entries_eq_error_iff {keep : Row → Bool} {places : List Nat}
    (hplaces : q.aggregates.mapM (fun a => t.lookUp a.column) = .ok places)
    (hkept : (t.filter keep).rows = q.kept t) :
    q.entries emptyAverage t keep places = .error cause
      ↔ ∃ before a after, q.aggregates = before ++ a :: after ∧
        (∀ b ∈ before, b.Fits t ∧ ¬b.Faults emptyAverage t.columnNames (q.kept t)) ∧
        (¬a.Fits t ∧ cause = a.misfit ∨
          a.Fits t ∧ a.Faults emptyAverage t.columnNames (q.kept t) ∧
            cause = .emptyAverage a.column) := by
  have hfound := mapM_eq_ok_iff.1 hplaces
  rw [entries, Aggregate.zip_places hfound, List.mapM_map, mapM_eq_error_iff]
  -- One aggregate and the place of its column in what is kept of the table.
  have hplace : ∀ a ∈ q.aggregates, (t.filter keep).columnIndex? a.column
      = some ((t.columnIndex? a.column).getD 0) := by
    intro a ha
    obtain ⟨i, hi⟩ := exists_mapM_eq_ok_iff.1 ⟨places, hplaces⟩ a ha
    rw [Table.columnIndex?_filter, Table.lookUp_eq_ok_iff.1 hi]
    rfl
  have hfits : ∀ a : Aggregate, a.Fits (t.filter keep) ↔ a.Fits t := by
    intro a
    rw [Aggregate.Fits, Aggregate.Fits, Table.kind?_filter]
  have hok : ∀ a ∈ q.aggregates,
      (∃ v, (do return (a.name, ← a.value emptyAverage (t.filter keep)
        ((t.columnIndex? a.column).getD 0)) : Except QueryError (String × Double)) = .ok v)
      ↔ a.Fits t ∧ ¬a.Faults emptyAverage t.columnNames (q.kept t) := by
    intro a ha
    simp [bind_eq_ok_iff, Aggregate.value_eq_ok_iff (hplace a ha), hfits, hkept, pure, Except.pure]
  have herror : ∀ a ∈ q.aggregates,
      (do return (a.name, ← a.value emptyAverage (t.filter keep)
        ((t.columnIndex? a.column).getD 0)) : Except QueryError (String × Double)) = .error cause
      ↔ ¬a.Fits t ∧ cause = a.misfit ∨
        a.Fits t ∧ a.Faults emptyAverage t.columnNames (q.kept t) ∧
          cause = .emptyAverage a.column := by
    intro a ha
    simp [bind_eq_error_iff, Aggregate.value_eq_error_iff (hplace a ha), hfits, hkept, pure,
      Except.pure]
  refine exists₃_congr fun before a after => and_congr_right fun hsplit => ?_
  refine and_congr (forall₂_congr fun b hb => hok b ?_) (herror a ?_)
  · simp [hsplit, hb]
  · simp [hsplit]

/-- Two queries fail alike if their look-ups do and they ask for the same aggregates, each of which
fits both tables or neither, and is an average of nothing in both or in neither. -/
theorem answer_failsAlike_of_aggregates {q' : Query} (haggregates : q.aggregates = q'.aggregates)
    (hlookUps : FailsAlike (q.lookUps t) (q'.lookUps t'))
    (hfits : ∀ a ∈ q.aggregates, a.Fits t ↔ a.Fits t')
    (hfaults : ∀ a ∈ q.aggregates, a.Faults emptyAverage t.columnNames (q.kept t)
      ↔ a.Faults emptyAverage t'.columnNames (q'.kept t')) :
    FailsAlike (q.answer emptyAverage t) (q'.answer emptyAverage t') := by
  rw [answer_eq_bind, answer_eq_bind]
  refine hlookUps.bind ?_
  rintro ⟨keep, order, places⟩ ⟨keep', order', places'⟩ hfound hfound'
  obtain ⟨-, hkept, -, hplaces⟩ := lookUps_eq_ok hfound
  obtain ⟨-, hkept', -, hplaces'⟩ := lookUps_eq_ok hfound'
  refine FailsAlike.bind ?_ fun _ _ _ _ => .of_ok _ _
  -- The aggregates fail at the same place, and for the same reason.
  intro cause
  rw [entries_eq_error_iff hplaces hkept, entries_eq_error_iff hplaces' hkept', ← haggregates]
  refine exists₃_congr fun before a after => and_congr_right fun hsplit => ?_
  have hmem : ∀ b ∈ before ++ [a], b ∈ q.aggregates := by
    intro b hb
    rw [hsplit, List.append_cons]
    exact List.mem_append_left _ hb
  have ha := hmem a (by simp)
  refine and_congr (forall₂_congr fun b hb => ?_) ?_
  · have hb := hmem b (List.mem_append_left _ hb)
    rw [hfits b hb, hfaults b hb]
  · rw [hfits a ha, hfaults a ha]

/-- A query fails for an empty average exactly if that average comes first. All that is looked up
has been found then, and each aggregate before it has a value. -/
theorem answer_eq_emptyAverage_iff {column : String} :
    q.answer emptyAverage t = .error (.emptyAverage column)
      ↔ ∃ a, q.EmptyFirst emptyAverage t a ∧ a.column = column := by
  rw [answer_eq_error_iff]
  constructor
  · rintro (hlookUps | ⟨keep, order, places, hlookUps, hentries⟩)
    · -- What is looked up fails only for a misfit.
      exact absurd (isMisfit_of_lookUps hlookUps) id
    · obtain ⟨hfound, hkept, -, hplaces⟩ := lookUps_eq_ok hlookUps
      -- So the first entry that fails is the average, and all before it have values.
      obtain ⟨before, a, after, hsplit, hbefore, ha⟩ :=
        (entries_eq_error_iff hplaces hkept).1 hentries
      rcases ha with ⟨-, hmisfit⟩ | ⟨hfits, hfaults, hcolumn⟩
      · cases hmisfit
      · cases hcolumn
        exact ⟨a, ⟨hfound, hfits, hfaults, before, after, hsplit, hbefore⟩, rfl⟩
  · rintro ⟨a, ⟨hfound, hfits, hfaults, before, after, hsplit, hbefore⟩, rfl⟩
    obtain ⟨keep, order, places, hlookUps⟩ := exists_lookUps hfound
    obtain ⟨-, hkept, -, hplaces⟩ := lookUps_eq_ok hlookUps
    have hentries := (entries_eq_error_iff hplaces hkept).2
      ⟨before, a, after, hsplit, hbefore, .inr ⟨hfits, hfaults, rfl⟩⟩
    exact .inr ⟨keep, order, places, hlookUps, hentries⟩

/-- Whether a query fits is a matter of the schema. -/
theorem fits_congr (h : t.schema = t'.schema) : q.Fits t ↔ q.Fits t' := by
  have hpredicate : ∀ p : Predicate, p.Fits t ↔ p.Fits t' := by
    intro p
    rw [Predicate.Fits, Predicate.Fits, Table.kind?_congr h]
  constructor
  · rintro ⟨hconditions, horder, haggregates⟩
    exact ⟨fun c hc p hp => (hpredicate p).1 (hconditions c hc p hp),
      Table.columnNames_congr h ▸ horder, fun a ha => (a.fits_congr h).1 (haggregates a ha)⟩
  · rintro ⟨hconditions, horder, haggregates⟩
    exact ⟨fun c hc p hp => (hpredicate p).2 (hconditions c hc p hp),
      (Table.columnNames_congr h).symm ▸ horder,
      fun a ha => (a.fits_congr h).2 (haggregates a ha)⟩

/-- A query that does not fit fails in one of two ways: with a misfit that is the same for all
tables of the schema, or for an empty average that comes first. -/
theorem exists_misfit_of_not_fits (h : ¬q.Fits t) :
    ∃ cause : QueryError, cause.IsMisfit ∧
      ∀ (t' : Table) (emptyAverage : EmptyAverage), t'.schema = t.schema →
        q.answer emptyAverage t' = .error cause ∨ ∃ a, q.EmptyFirst emptyAverage t' a := by
  classical
  cases hlookUps : q.lookUps t with
  | error cause =>
    -- Looking up sees the schema only, so it fails on every such table.
    refine ⟨cause, isMisfit_of_lookUps hlookUps, fun t' emptyAverage hschema => .inl ?_⟩
    exact answer_eq_error_iff.2 (.inl ((lookUps_congr hschema q).trans hlookUps))
  | ok found =>
    -- All is there, so an aggregate does not fit. The first of these is the misfit.
    obtain ⟨a, ha⟩ : ∃ a, q.aggregates.find? (fun a => ¬a.Fits t) = some a := by
      obtain ⟨hfound, -⟩ := lookUps_eq_ok hlookUps
      rw [← Option.isSome_iff_exists, List.find?_isSome]
      by_contra hnone
      refine h ⟨hfound.conditions, hfound.order, fun a ha => ?_⟩
      by_contra hfits
      exact hnone ⟨a, ha, by simpa using hfits⟩
    refine ⟨a.misfit, trivial, fun t' emptyAverage hschema => ?_⟩
    cases hanswer : q.answer emptyAverage t' with
    | ok r => exact absurd ((fits_congr hschema).1 (isAnswer_of_answer hanswer).1) h
    | error cause =>
      rcases answer_eq_error_iff.1 hanswer with hnone | ⟨keep, order, places, hsome, hentries⟩
      · rw [lookUps_congr hschema, hlookUps] at hnone
        cases hnone
      · obtain ⟨hfound, hkept, -, hplaces⟩ := lookUps_eq_ok hsome
        obtain ⟨before, b, after, hsplit, hbefore, hb⟩ :=
          (entries_eq_error_iff hplaces hkept).1 hentries
        rcases hb with ⟨hmisfit, rfl⟩ | ⟨hfits, hfaults, -⟩
        · -- The first aggregate that does not fit is the same one for both tables.
          have hfirst : q.aggregates.find? (fun a => ¬a.Fits t) = some b := by
            refine List.find?_eq_some_iff_append.2 ⟨?_, before, after, hsplit, fun c hc => ?_⟩
            · simpa [b.fits_congr hschema] using hmisfit
            · simpa [c.fits_congr hschema] using (hbefore c hc).1
          obtain rfl := Option.some.inj (ha.symm.trans hfirst)
          exact .inl rfl
        · exact .inr ⟨b, hfound, hfits, hfaults, before, after, hsplit, hbefore⟩

/-- A query that does not fit its table fails. There is one misfit with which it fails on every
table of the schema, whatever the rows are and whatever the average of nothing is to be, unless
the average of nothing comes first; and then it fails for that. -/
theorem answer_of_not_fits (h : ¬q.Fits t) :
    ∃ cause : QueryError, cause.IsMisfit ∧
      ∀ (t' : Table) (emptyAverage : EmptyAverage), t'.schema = t.schema →
        (q.answer emptyAverage t' = .error cause ↔ ∀ a, ¬q.EmptyFirst emptyAverage t' a) ∧
        ∀ a, q.EmptyFirst emptyAverage t' a →
          q.answer emptyAverage t' = .error (.emptyAverage a.column) := by
  obtain ⟨cause, hcause, hall⟩ := exists_misfit_of_not_fits h
  refine ⟨cause, hcause, fun t' emptyAverage hschema => ⟨⟨?_, ?_⟩, ?_⟩⟩
  · intro hanswer a ha
    -- An empty average is no misfit, and there is one fault only.
    have hempty := answer_eq_emptyAverage_iff.2 ⟨a, ha, rfl⟩
    cases hanswer.symm.trans hempty
    exact hcause
  · intro hnone
    rcases hall t' emptyAverage hschema with hanswer | ⟨a, ha⟩
    · exact hanswer
    · exact absurd ha (hnone a)
  · intro a ha
    exact answer_eq_emptyAverage_iff.2 ⟨a, ha, rfl⟩

/-- A query that orders by a column that is not there does not fit. -/
theorem answer_of_unknown_order :
    let q : Query := { order := some ⟨"m", .ascending⟩, aggregates := [⟨.average, "n"⟩] }
    ∃ t : Table, Table.ofCells ["n"] [[.null]] = .ok t ∧ ¬q.Fits t ∧
      ∃ cause : QueryError, cause.IsMisfit ∧
        ∀ (t' : Table) (emptyAverage : EmptyAverage), t'.schema = t.schema →
          (q.answer emptyAverage t' = .error cause ↔ ∀ a, ¬q.EmptyFirst emptyAverage t' a) ∧
          ∀ a, q.EmptyFirst emptyAverage t' a →
            q.answer emptyAverage t' = .error (.emptyAverage a.column) := by
  intro q
  let t : Table := {
    columns := [⟨"n", .numbers #[none]⟩]
    rowCount := 1
    size_eq := by simp [Values.size]
    nodup := by simp
    rowCount_eq_zero := by simp }
  have hfits : ¬q.Fits t := by
    intro hfits
    have hmem : "m" ∈ t.columnNames := hfits.order _ rfl
    simp [Table.columnNames, t] at hmem
  exact ⟨t, rfl, hfits, answer_of_not_fits hfits⟩

/-- The average of nothing comes before the sum of texts that is asked for later: the query does
not fit, and with which fault it fails depends on what the average of nothing is to be. -/
theorem answer_empty_average_first :
    let q : Query := { aggregates := [⟨.average, "n"⟩, ⟨.sum, "s"⟩] }
    ∃ t : Table, Table.ofCells ["n", "s"] [[.null, .text "x"]] = .ok t ∧ ¬q.Fits t ∧
      q.answer .nan t = .error (.nonNumericAggregate .sum "s" .text) ∧
      q.answer .fault t = .error (.emptyAverage "n") ∧
      ¬∃ cause : QueryError, cause.IsMisfit ∧
        ∀ (t' : Table) (emptyAverage : EmptyAverage), t'.schema = t.schema →
          q.answer emptyAverage t' = .error cause := by
  intro q
  let t : Table := {
    columns := [⟨"n", .numbers #[none]⟩, ⟨"s", .texts #[some "x"]⟩]
    rowCount := 1
    size_eq := by simp [Values.size]
    nodup := by simp
    rowCount_eq_zero := by simp }
  have hnan : q.answer .nan t = .error (.nonNumericAggregate .sum "s" .text) := rfl
  have hfault : q.answer .fault t = .error (.emptyAverage "n") := rfl
  -- Only the average depends on the choice, and with the fault it is never a misfit.
  refine ⟨t, rfl, fun hfits => ?_, hnan, hfault, ?_⟩
  · obtain ⟨kind, hkind, hcount | rfl⟩ := hfits.aggregates ⟨.sum, "s"⟩ (by simp [q])
    · cases hcount
    · cases hkind
  · rintro ⟨cause, hcause, hall⟩
    cases (hall t .fault rfl).symm.trans hfault
    exact hcause

end Query

end Roster
