import Roster.Proofs.Query.Stored
import Roster.Proofs.Script.Climbing
import Roster.Proofs.Session.Stopping

/-!
# `Roster.Proofs.Session.Stored`: scripts over stored tables stop only at faults of theirs

`interpret` reads a script by recursive descent and runs it in a session whose table is a stored
one. On the way it could meet what is no fault of anybody's: a case of the reader that was taken to
be impossible, a number that is no numeral, a place outside of a list, rows that the store refuses.

`interpret_stops_only_at_faults` is the main result: none of this is met, whatever the script, the
settings and the source are, as long as the tables of the source have been built from records or
cells. Reading stops only with the error of `Program.parse`, a run only with a fault of a query,
and the columns of the answers can be read.

The session over stored tables is compared with `Session` statement by statement
(`Represents.agrees`), and the runs by induction over the program (`Represents.runFrom`).
`Supplies` says of two sources that the tables of one represent those of the other; there is such a
source of tables for every source of stored ones (`exists_supplies`).
-/

set_option autoImplicit false

namespace Roster

open StoredTable (Halt)

/-- Where stored tables come from. -/
abbrev StoredSource (S : ColumnStore) := String → Except TableError (StoredTable S)

/-- The stored table that is loaded, and the query made so far. -/
structure StoredSession (S : ColumnStore) where
  table : Option (StoredTable S) := none
  query : Query := {}

/-- What is left of a program over stored tables. A failing statement is told by its place, its
first word and why it has stopped. -/
structure StoredRun (S : ColumnStore) where
  answers : List Answer
  session : StoredSession S
  failure : Option (Nat × Keyword × Halt S)

namespace StoredSession

variable {S : ColumnStore}

/-- The table that is loaded. -/
def loaded (s : StoredSession S) : Except (Halt S) (StoredTable S) :=
  match s.table with
  | some T => .ok T
  | none => .error (.query .noTable)

/-- Carries out one statement; a `print` gives an answer. -/
def apply (source : StoredSource S) (settings : Settings) (s : StoredSession S) :
    Statement → Except (Halt S) (Option Answer × StoredSession S)
  | .load path => do
    let T ← (source path).mapError fun cause => .query (.load path cause)
    let query := if s.table.isSome && settings.reload == .reset then {} else s.query
    return (none, ⟨some T, query⟩)
  | .filter clause => do
    let _ ← s.loaded
    let conditions ← (settings.filterMode.combine clause).mapError .query
    return (none, { s with query.conditions := s.query.conditions ++ conditions })
  | .aggregate function column => do
    let _ ← s.loaded
    return (none, { s with query.aggregates := s.query.aggregates ++ [{ function, column }] })
  | .sort column direction => do
    let _ ← s.loaded
    return (none, { s with query.order := some { column, direction } })
  | .print => do
    let T ← s.loaded
    return (some (← T.answer settings.emptyAverage s.query), s)

/-- Runs statements the first of which has a given place in its program. -/
def runFrom (source : StoredSource S) (settings : Settings) (index : Nat) (s : StoredSession S) :
    Program → StoredRun S
  | [] => { answers := [], session := s, failure := none }
  | statement :: rest =>
    match s.apply source settings statement with
    | .error halt =>
      { answers := [], session := s, failure := some (index, statement.keyword, halt) }
    | .ok (answer, s) =>
      let r := s.runFrom source settings (index + 1) rest
      { r with answers := answer.toList ++ r.answers }

/-- Reads a script and runs it. -/
def interpret (source : StoredSource S) (settings : Settings) (s : StoredSession S)
    (script : String) : Except Descent.Stop (StoredRun S) := do
  return s.runFrom source settings 0 (← Descent.parse script)

/-! ### Sessions over stored tables and sessions -/

/-- Whether a stored table represents a table, or there is neither. -/
def TableRepresents (T : Option (StoredTable S)) (t : Option Table) : Prop :=
  match t with
  | none => T = none
  | some t => ∃ T', T = some T' ∧ T'.Represents t

/-- Whether two sessions have the same query, over a stored table and the one it represents. -/
structure Represents (s : StoredSession S) (σ : Session) : Prop where
  table : TableRepresents s.table σ.table
  query : s.query = σ.query

end StoredSession

/-- Whether a source supplies the stored tables of those that another one has. -/
def Supplies {S : ColumnStore} (source : StoredSource S) (tables : TableSource) : Prop :=
  ∀ path, match tables path with
    | .error cause => source path = .error cause
    | .ok t => ∃ T, source path = .ok T ∧ T.Represents t

/-- Whether a run over stored tables is a run over the tables that they represent. -/
structure StoredRun.Represents {S : ColumnStore} (r : StoredRun S) (ρ : Run) : Prop where
  answers : r.answers = ρ.answers
  session : r.session.Represents ρ.session
  failure : r.failure = ρ.failure.map fun e => (e.index, e.keyword, .query e.cause)

variable {S : ColumnStore} {source : StoredSource S} {tables : TableSource} {settings : Settings}
  {s : StoredSession S} {σ : Session}

/-- For every source of tables that can be had there is one of the tables that they represent. -/
theorem exists_supplies (hS : S.Laws) (h : ∀ path T, source path = .ok T → T.Obtained) :
    ∃ tables, Supplies source tables := by
  have htable : ∀ path, ∃ table : Except TableError Table, match table with
      | .error cause => source path = .error cause
      | .ok t => ∃ T, source path = .ok T ∧ T.Represents t := by
    intro path
    cases hpath : source path with
    | error cause => exact ⟨.error cause, rfl⟩
    | ok T =>
      obtain ⟨t, ht⟩ := (h path T hpath).exists_represents hS
      exact ⟨.ok t, T, rfl, ht⟩
  -- The tables are chosen path by path.
  exact Classical.skolem.1 htable

namespace StoredSession

/-- A session whose table can be had represents a session. -/
theorem exists_represents (hS : S.Laws) (h : ∀ T, s.table = some T → T.Obtained) :
    ∃ σ : Session, s.Represents σ := by
  cases htable : s.table with
  | none => exact ⟨⟨none, s.query⟩, htable, rfl⟩
  | some T =>
    obtain ⟨t, ht⟩ := (h T htable).exists_represents hS
    exact ⟨⟨some t, s.query⟩, ⟨T, htable, ht⟩, rfl⟩

/-- What a statement does to a session that represents another one: both fail alike, or both
succeed with the same answer, whose columns can be read, and the sessions after it are again
such. -/
def Agrees (source : StoredSource S) (tables : TableSource) (settings : Settings)
    (s : StoredSession S) (σ : Session) (statement : Statement) : Prop :=
  (∃ cause, σ.step tables settings statement = (.error cause, σ) ∧
    s.apply source settings statement = .error (.query cause)) ∨
  ∃ answer σ' s', σ.step tables settings statement = (.ok answer, σ') ∧
    s.apply source settings statement = .ok (answer, s') ∧ s'.Represents σ' ∧
    ∀ r, answer = some r → ∀ name, r.readColumn S name = .ok (r.columnValues? name)

/-- Statements that answer nothing agree if both sessions go on and the new ones represent each
other. -/
theorem agrees_of_silent {statement : Statement} {σ' : Session} {s' : StoredSession S}
    (hstep : σ.step tables settings statement = (.ok none, σ'))
    (happly : s.apply source settings statement = .ok (none, s')) (h : s'.Represents σ') :
    Agrees source tables settings s σ statement := by
  refine .inr ⟨none, σ', s', hstep, happly, h, fun r hr => ?_⟩
  cases hr

/-- A load finds no table in both sources, or a stored table and the one it represents. Whether the
query is dropped depends on whether a table was loaded, which is the same for both. -/
theorem Represents.agrees_load (h : s.Represents σ) (hsource : Supplies source tables)
    (path : String) : Agrees source tables settings s σ (.load path) := by
  obtain ⟨T?, query⟩ := s
  obtain ⟨t?, query'⟩ := σ
  obtain ⟨htable, rfl⟩ := h
  have hpath := hsource path
  -- Both sessions have a table or none has, so they drop the query together.
  have hsome : T?.isSome = t?.isSome := by
    cases t? with
    | none => rw [show T? = none from htable]; rfl
    | some t =>
      obtain ⟨T, rfl, -⟩ := htable
      rfl
  have hstep : Session.step tables settings ⟨t?, query⟩ (.load path) = _ := Session.step_load path
  cases htables : tables path with
  | error cause =>
    rw [htables] at hpath hstep
    refine .inl ⟨_, hstep, ?_⟩
    rw [apply, hpath]
    rfl
  | ok t =>
    rw [htables] at hpath hstep
    obtain ⟨T, hT, ht⟩ := hpath
    have happly : apply source settings ⟨T?, query⟩ (.load path) = .ok (none, ⟨some T,
        if t?.isSome && settings.reload == .reset then {} else query⟩) := by
      rw [apply, hT, hsome]
      rfl
    exact agrees_of_silent hstep happly ⟨⟨T, rfl, ht⟩, rfl⟩

/-- Without a table every statement but a load fails. -/
theorem agrees_of_no_table {statement : Statement} (h : ∀ path, statement ≠ .load path)
    (query : Query) : Agrees source tables settings ⟨none, query⟩ ⟨none, query⟩ statement := by
  cases statement with
  | load path => exact absurd rfl (h path)
  | filter clause =>
    rw [Agrees, Session.step_filter]
    exact .inl ⟨.noTable, rfl, rfl⟩
  | aggregate | sort | print => exact .inl ⟨.noTable, rfl, rfl⟩

/-- Every statement does to a session that represents another one what it does to that. There is one
case for each statement, and for a print the rows of both answers are read as well. -/
theorem Represents.agrees (h : s.Represents σ) (hS : S.Laws) (hsource : Supplies source tables)
    (statement : Statement) : Agrees source tables settings s σ statement := by
  by_cases hload : ∃ path, statement = .load path
  · obtain ⟨path, rfl⟩ := hload
    exact h.agrees_load hsource path
  -- Any other statement needs a table, and both sessions lack it together.
  push Not at hload
  obtain ⟨T?, query⟩ := s
  obtain ⟨t?, query'⟩ := σ
  obtain ⟨htable, rfl⟩ := h
  cases t? with
  | none =>
    obtain rfl : T? = none := htable
    exact agrees_of_no_table hload query
  | some t =>
    obtain ⟨T, rfl, hT⟩ := htable
    cases statement with
    | load path => exact absurd rfl (hload path)
    | filter clause =>
      cases hcombine : settings.filterMode.combine clause with
      | error cause =>
        refine .inl ⟨cause, ?_, ?_⟩
        · rw [Session.step_filter, hcombine]
        · rw [apply, hcombine]
          rfl
      | ok conditions =>
        have hstep : Session.step tables settings ⟨some t, query⟩ (.filter clause) = (.ok none,
            ⟨some t, { query with conditions := query.conditions ++ conditions }⟩) := by
          rw [Session.step_filter, hcombine]
        have happly : apply source settings ⟨some T, query⟩ (.filter clause) = .ok (none,
            ⟨some T, { query with conditions := query.conditions ++ conditions }⟩) := by
          rw [apply, hcombine]
          rfl
        exact agrees_of_silent hstep happly ⟨⟨T, rfl, hT⟩, rfl⟩
    -- These only add to the query, which both sessions share.
    | aggregate | sort => exact agrees_of_silent rfl rfl ⟨⟨T, rfl, hT⟩, rfl⟩
    | print =>
      -- A print asks the stored table, which answers as the table does that it represents.
      have happly : apply source settings ⟨some T, query⟩ .print
          = (T.answer settings.emptyAverage query).map fun r =>
              (some r, (⟨some T, query⟩ : StoredSession S)) := by
        show (T.answer settings.emptyAverage query >>= _) = _
        cases T.answer settings.emptyAverage query <;> rfl
      rw [Agrees, Session.step_print, happly, hT.answer_eq hS]
      dsimp only
      cases hanswer : query.answer settings.emptyAverage t with
      | error cause => exact .inl ⟨cause, rfl, rfl⟩
      | ok r =>
        refine .inr ⟨some r, _, _, rfl, rfl, ⟨⟨T, rfl, hT⟩, rfl⟩, ?_⟩
        rintro _ ⟨⟩ name
        exact StoredTable.readColumn_eq hanswer name

/-- A run over stored tables is the run over the tables that they represent, and the columns of its
answers can be read. -/
theorem Represents.runFrom (h : s.Represents σ) (hS : S.Laws) (hsource : Supplies source tables)
    (index : Nat) (p : Program) :
    (s.runFrom source settings index p).Represents (σ.runFrom tables settings index p) ∧
      ∀ r ∈ (s.runFrom source settings index p).answers, ∀ name,
        r.readColumn S name = .ok (r.columnValues? name) := by
  induction p generalizing s σ index with
  | nil => exact ⟨⟨rfl, h, rfl⟩, fun _ hr => absurd hr List.not_mem_nil⟩
  | cons statement rest ih =>
    rcases h.agrees hS hsource statement with ⟨cause, hstep, happly⟩ |
      ⟨answer, σ', s', hstep, happly, h', hcolumns⟩
    · rw [StoredSession.runFrom, Session.runFrom, hstep, happly]
      exact ⟨⟨rfl, h, rfl⟩, fun _ hr => absurd hr List.not_mem_nil⟩
    · obtain ⟨hrun, hanswers⟩ := ih h' (index + 1)
      rw [StoredSession.runFrom, Session.runFrom, hstep, happly]
      refine ⟨⟨congrArg (answer.toList ++ ·) hrun.answers, hrun.session, hrun.failure⟩, ?_⟩
      intro r hr
      rcases List.mem_append.1 hr with hr | hr
      · exact hcolumns r (Option.mem_toList.1 hr)
      · exact hanswers r hr

/-- A statement leaves the table that was loaded, or one of the source. So every table of a run has
been obtained if those of the source and of the session before have. -/
theorem table_of_apply {statement : Statement} {answer : Option Answer} {s' : StoredSession S}
    {T : StoredTable S} (h : s.apply source settings statement = .ok (answer, s'))
    (hT : s'.table = some T) : s.table = some T ∨ ∃ path, source path = .ok T := by
  cases statement with
  | load path =>
    obtain ⟨T', hpath, h⟩ := bind_eq_ok_iff.1 h
    cases h
    cases hT
    cases hsource : source path with
    | error cause =>
      rw [hsource] at hpath
      cases hpath
    | ok T' =>
      rw [hsource] at hpath
      cases hpath
      -- Only a load brings another table.
      exact .inr ⟨path, hsource⟩
  | filter clause =>
    obtain ⟨_, _, h⟩ := bind_eq_ok_iff.1 h
    obtain ⟨_, _, h⟩ := bind_eq_ok_iff.1 h
    cases h
    exact .inl hT
  | aggregate | sort =>
    obtain ⟨_, _, h⟩ := bind_eq_ok_iff.1 h
    cases h
    exact .inl hT
  | print =>
    obtain ⟨_, _, h⟩ := bind_eq_ok_iff.1 h
    obtain ⟨_, _, h⟩ := bind_eq_ok_iff.1 h
    cases h
    exact .inl hT

/-- Whatever holds of the table that was loaded and of all tables of the source holds of the table
that a run leaves. -/
theorem table_of_runFrom {holds : StoredTable S → Prop}
    (hsource : ∀ path T, source path = .ok T → holds T)
    (hs : ∀ T, s.table = some T → holds T) (index : Nat) (p : Program) :
    ∀ T, (s.runFrom source settings index p).session.table = some T → holds T := by
  induction p generalizing s index with
  | nil => exact hs
  | cons statement rest ih =>
    rw [StoredSession.runFrom]
    split
    · exact hs
    · rename_i answer s' happly
      refine ih (fun T hT => ?_) (index + 1)
      rcases table_of_apply happly hT with hT | ⟨path, hpath⟩
      · exact hs T hT
      · exact hsource path T hpath

/-- Let the tables of a source, and the one that is loaded, be had by building, filtering and
sorting. Then a script stops only at faults of its own.

- Reading it stops with the error of the script.
- Running it stops with a fault of a query. Every column of its answers can be read. The table that
  it leaves is such a table again, so the next script goes on alike. The run is the one over the
  tables that are represented.
- Filtering and sorting such a table do not fail.
- The comparison of a sort is a total preorder in both directions. -/
theorem interpret_stops_only_at_faults (hS : S.Laws)
    (hsource : ∀ path T, source path = .ok T → T.Obtained)
    (hs : ∀ T, s.table = some T → T.Obtained) (settings : Settings) (script : String) :
    (∀ stop, s.interpret source settings script = .error stop →
      ∃ cause, stop = .fault cause ∧ Program.parse script = .error cause) ∧
    (∀ r, s.interpret source settings script = .ok r →
      (∀ place keyword halt, r.failure = some (place, keyword, halt) →
        ∃ cause, halt = .query cause) ∧
      (∀ a ∈ r.answers, ∀ name, a.readColumn S name = .ok (a.columnValues? name)) ∧
      (∀ T, r.session.table = some T → T.Obtained) ∧
      ∃ tables σ p, Supplies source tables ∧ s.Represents σ ∧ Program.parse script = .ok p ∧
        r.Represents (σ.run tables settings p)) ∧
    (∀ T : StoredTable S, T.Obtained → (∀ keep, ∃ T', T.filter keep = .ok T') ∧
      ∀ index direction, ∃ T', T.sort index direction = .ok T') ∧
    ∀ direction, Std.TransCmp (Cell.arrange direction) ∧
      ∀ a b, Cell.mayPrecede direction a b = (Cell.arrange direction a b).isLE := by
  have hinterpret : s.interpret source settings script
      = ((Program.parse script).mapError .fault).map (s.runFrom source settings 0) := by
    rw [interpret, Descent.parse_eq]
    cases Program.parse script <;> rfl
  -- There is a session over tables to compare with, whatever the stored tables are.
  obtain ⟨tables, htables⟩ := exists_supplies hS hsource
  obtain ⟨σ, hσ⟩ := exists_represents hS hs
  rw [hinterpret]
  refine ⟨fun stop hstop => ?_, fun r hr => ?_, fun T hT => ?_, fun direction => ?_⟩
  · cases hparse : Program.parse script with
    | error cause =>
      rw [hparse] at hstop
      cases hstop
      exact ⟨cause, rfl, rfl⟩
    | ok p =>
      rw [hparse] at hstop
      cases hstop
  · cases hparse : Program.parse script with
    | error cause =>
      rw [hparse] at hr
      cases hr
    | ok p =>
      rw [hparse] at hr
      cases hr
      obtain ⟨hrun, hcolumns⟩ := hσ.runFrom hS htables 0 p
      refine ⟨?_, hcolumns, table_of_runFrom hsource hs 0 p, tables, σ, p, htables, hσ, rfl, hrun⟩
      intro place keyword halt hfailure
      rw [hrun.failure] at hfailure
      obtain ⟨e, -, he⟩ := Option.map_eq_some_iff.1 hfailure
      cases he
      exact ⟨e.cause, rfl⟩
  · obtain ⟨t, ht⟩ := hT.exists_represents hS
    refine ⟨fun keep => ?_, fun index direction => ?_⟩
    · obtain ⟨T', hT', -⟩ := ht.filter hS keep
      exact ⟨T', hT'⟩
    · obtain ⟨T', hT', -⟩ := ht.sort hS index direction
      exact ⟨T', hT'⟩
  · exact ⟨Cell.transCmp_arrange direction, Cell.mayPrecede_eq_isLE direction⟩

/-- A session with a table of two rows, one of them without a number, and a source that has this
table under one path. -/
theorem interpret_stops_only_at_faults_listed :
    let T : StoredTable .listed :=
      ⟨[⟨"s", .texts #[some "x", none]⟩, ⟨"n", .numbers #[none, some .zero]⟩],
        [("n", .numeric), ("s", .text)]⟩
    let source : StoredSource .listed := fun path =>
      if path = "t.csv" then .ok T else .error (.notFound path)
    let script := "load \"t.csv\"; filter column \"s\" == \"x\"; sort column \"n\" desc; print;"
    ColumnStore.listed.Laws ∧ T.Obtained ∧
      (∀ stop, interpret source {} ⟨some T, {}⟩ script = .error stop →
        ∃ cause, stop = .fault cause) ∧
      ∀ r, interpret source {} ⟨some T, {}⟩ script = .ok r →
        ∀ a ∈ r.answers, a.readColumn .listed "n" = .ok (a.columnValues? "n") := by
  intro T source script
  have hwhole : StoredTable.ofCells .listed ["n", "s"]
      [[.null, .text "x"], [.number .zero, .null]] = .ok T := rfl
  have hT : T.Obtained := .ofCells hwhole
  -- The source has no other table.
  have hsource : ∀ path T', source path = .ok T' → T'.Obtained := by
    intro path T' h
    by_cases hpath : path = "t.csv"
    · rw [show source path = .ok T from if_pos hpath] at h
      cases h
      exact hT
    · rw [show source path = .error (.notFound path) from if_neg hpath] at h
      cases h
  have hs : ∀ T', (⟨some T, {}⟩ : StoredSession .listed).table = some T' → T'.Obtained := by
    rintro _ ⟨⟩
    exact hT
  obtain ⟨hreading, hrunning, -⟩ :=
    interpret_stops_only_at_faults ColumnStore.laws_listed hsource hs {} script
  refine ⟨ColumnStore.laws_listed, hT, fun stop hstop => ?_, fun r hr a ha => ?_⟩
  · obtain ⟨cause, hcause, -⟩ := hreading stop hstop
    exact ⟨cause, hcause⟩
  · obtain ⟨-, hcolumns, -⟩ := hrunning r hr
    exact hcolumns a ha "n"

end StoredSession

end Roster
