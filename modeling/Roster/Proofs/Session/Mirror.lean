import Roster.Proofs.Query.Rearranged
import Roster.Proofs.Session.History
import Roster.Proofs.Session.Runs
import Roster.Proofs.Table.Reversal

/-!
# `Roster.Proofs.Session.Mirror`: what is printed down is what is printed up, mirrored

`sort_descending_mirrors` is the law of the two directions. Of a table it is
`Table.rows_sort_descending`: sorted down, the rows that have a cell are those sorted up from last
to first, if they are also taken from last to first, and the rows that have none stand behind them
as they stood. Of what a session prints it is the simpler law that a reader expects, for rows that
can be told apart by the column (`Row.Distinct`): the same answer with its rows from last to first,
or the same failure.

Only the rows that are kept have to differ in the column. The two programs may be run one after the
other or each in the session as it was: a sort takes the place of the one before it.
-/

set_option autoImplicit false

namespace Roster

/-- The answer with its rows from last to first. -/
def Answer.reversed (r : Answer) : Answer := { r with rows := r.rows.reverse }

/-- Whether rows can be told apart by the column of a name: all have a cell there, and no two have
cells that are compared as equal. -/
structure Row.Distinct (names : List String) (column : String) (rows : List Row) : Prop where
  there : ∀ row ∈ rows, (row.cell names column).isNull = false
  distinct : rows.Pairwise fun r s => (r.cell names column).order (s.cell names column) ≠ .eq

namespace Query

variable {q : Query} {t : Table} {column : String}

/-- The query with its rows in the order of a column. -/
def orderedBy (q : Query) (column : String) (direction : Direction) : Query :=
  { q with order := some ⟨column, direction⟩ }

/-- The direction has no part in what is looked up. -/
theorem rearranged_orderedBy (q : Query) (column : String) (t : Table)
    (direction direction' : Direction) :
    (q.orderedBy column direction).Rearranged (q.orderedBy column direction') t t where
  conditions := rfl
  aggregates := rfl
  order := by
    show FailsAlike (Except.map some _) (Except.map some _)
    exact ((FailsAlike.refl (t.lookUp column)).bind fun _ _ _ _ => .of_ok _ _).map _ _
  schema := rfl
  rows := .refl _

/-- If the rows can be told apart, the answer down is the answer up with its rows from last to
first, or both fail for the same. -/
theorem answer_descending (h : Row.Distinct t.columnNames column (q.kept t))
    (emptyAverage : EmptyAverage) :
    (q.orderedBy column .descending).answer emptyAverage t
      = ((q.orderedBy column .ascending).answer emptyAverage t).map Answer.reversed := by
  have halike := (q.rearranged_orderedBy column t .ascending .descending).answer_failsAlike
    emptyAverage
  cases hup : (q.orderedBy column .ascending).answer emptyAverage t with
  | error cause => exact (halike cause).1 hup
  | ok r =>
    obtain ⟨r', hdown⟩ := halike.exists_ok_iff.1 ⟨r, hup⟩
    obtain ⟨-, -, hanswer⟩ := isAnswer_of_answer hup
    obtain ⟨-, -, hanswer'⟩ := isAnswer_of_answer hdown
    have hrows : r'.rows = r.rows.reverse :=
      Cell.eq_reverse_of_distinct (fun row : Row => row.cell t.columnNames column)
        hanswer.rows hanswer'.rows h.there h.distinct
    -- The mirrored answer is an answer down, and there is only one.
    have hreversed : (q.orderedBy column .descending).IsAnswer t r.reversed := by
      refine ⟨hanswer.columns, ?_, ?_, ?_, hanswer.aggregates⟩
      · rw [Answer.reversed, ← hrows]
        exact hanswer'.rows
      · rw [Answer.reversed, List.length_reverse]
        exact hanswer.length_rows
      · rw [Answer.reversed, List.length_reverse]
        exact hanswer.rowCount
    rw [hdown, hanswer'.unique hreversed]
    rfl

end Query

namespace Session

variable {source : TableSource} {settings : Settings} {column : String}

/-- A sort and a print: the query is asked with its rows in the order of the column, and the session
keeps the order. -/
theorem run_sort_print (source : TableSource) (settings : Settings) (s : Session)
    (column : String) (direction : Direction) :
    s.run source settings [.sort column direction, .print] =
      match s.table with
      | none => ⟨[], s, some ⟨0, .sort, .noTable⟩⟩
      | some t =>
        let asked : Session := { s with query := s.query.orderedBy column direction }
        match asked.query.answer settings.emptyAverage t with
        | .error cause => ⟨[], asked, some ⟨1, .print, cause⟩⟩
        | .ok r => ⟨[r], asked, none⟩ := by
  cases htable : s.table with
  | none =>
    rw [run, runFrom, step_sort, htable]
    rfl
  | some t =>
    have hsort : s.step source settings (.sort column direction)
        = (.ok none, { s with query := s.query.orderedBy column direction }) := by
      rw [step_sort, htable]
      rfl
    rw [run, runFrom_cons hsort, runFrom, step_print, htable]
    dsimp only
    cases (s.query.orderedBy column direction).answer settings.emptyAverage t <;> rfl

/-- The session that is left keeps its table and its query, all but the order. -/
theorem exists_session_sort_print (source : TableSource) (settings : Settings) (s : Session)
    (column : String) (direction : Direction) :
    ∃ order, (s.run source settings [.sort column direction, .print]).session
      = { s with query := { s.query with order } } := by
  rw [run_sort_print]
  split
  · exact ⟨s.query.order, rfl⟩
  · dsimp only
    split <;> exact ⟨_, rfl⟩

/-- A sort and a print down, in the session or in one with another order, gives what they give up,
with the rows from last to first. -/
theorem outcome_sort_print_descending (s : Session) (order : Option SortOrder)
    (h : ∀ t, s.table = some t → Row.Distinct t.columnNames column (s.query.kept t)) :
    (({ s with query := { s.query with order } } : Session).run source settings
        [.sort column .descending, .print]).outcome
      = (s.run source settings [.sort column .ascending, .print]).outcome.map
          (List.map Answer.reversed) := by
  rw [run_sort_print, run_sort_print]
  cases htable : s.table with
  | none => rfl
  | some t =>
    -- The order that the other session has is replaced.
    have hanswer : (Query.orderedBy { s.query with order } column .descending).answer
        settings.emptyAverage t = ((s.query.orderedBy column .ascending).answer
          settings.emptyAverage t).map Answer.reversed :=
      Query.answer_descending (h t htable) settings.emptyAverage
    dsimp only
    rw [hanswer]
    cases (s.query.orderedBy column .ascending).answer settings.emptyAverage t <;> rfl

/-- Down is the mirror of up. The rows of a table sorted down are those with a cell, turned round,
sorted up and turned round again, and behind them those without a cell, as they stood. If the rows
that a session keeps can be told apart by a column, a sort down and a print give what a sort up and
a print give, with the rows of the answer from last to first, or they fail for the same, whether the
two are run in the same session or one after the other. -/
theorem sort_descending_mirrors :
    (∀ (t : Table) (i : Nat),
      (t.sort i .descending).rows
        = ((t.filter fun r => !(r.getD i .null).isNull).reversed.sort i .ascending).rows.reverse
          ++ t.rows.filter fun r => (r.getD i .null).isNull) ∧
    ∀ (source : TableSource) (settings : Settings) (s : Session) (column : String),
      (∀ t, s.table = some t → Row.Distinct t.columnNames column (s.query.kept t)) →
      let up := s.run source settings [.sort column .ascending, .print]
      (s.run source settings [.sort column .descending, .print]).outcome
        = up.outcome.map (List.map Answer.reversed) ∧
      (up.session.run source settings [.sort column .descending, .print]).outcome
        = up.outcome.map (List.map Answer.reversed) := by
  refine ⟨Table.rows_sort_descending, ?_⟩
  intro source settings s column h
  obtain ⟨order, hsession⟩ := exists_session_sort_print source settings s column .ascending
  refine ⟨outcome_sort_print_descending s s.query.order h, ?_⟩
  rw [hsession]
  exact outcome_sort_print_descending s order h

/-- The two zeros can be told apart, and the row without a number is not kept. -/
theorem sort_descending_mirrors_zeros :
    let source : TableSource := fun path => .error (.notFound path)
    let q : Query := { conditions := [.leaf ⟨"s", .text .notEqual "c"⟩] }
    let rows : List Row := [[.number (Double.ofNat 1), .text "a"], [.number .zero, .text "b"],
      [.null, .text "c"], [.number { Double.zero with negative := true }, .text "d"]]
    ∃ t, Table.ofCells ["n", "s"] rows = .ok t ∧ Row.Distinct t.columnNames "n" (q.kept t) ∧
      let s : Session := ⟨some t, q⟩
      let up := s.run source {} [.sort "n" .ascending, .print]
      (s.run source {} [.sort "n" .descending, .print]).outcome
        = up.outcome.map (List.map Answer.reversed) ∧
      (up.session.run source {} [.sort "n" .descending, .print]).outcome
        = up.outcome.map (List.map Answer.reversed) := by
  intro source q rows
  obtain ⟨t, ht⟩ : ∃ t, Table.ofCells ["n", "s"] rows = .ok t := ⟨_, rfl⟩
  have hdistinct : Row.Distinct t.columnNames "n" (q.kept t) := by
    cases ht
    exact ⟨by decide, by decide⟩
  refine ⟨t, ht, hdistinct, sort_descending_mirrors.2 source {} ⟨some t, q⟩ "n" ?_⟩
  rintro _ ⟨⟩
  exact hdistinct

end Session

end Roster
