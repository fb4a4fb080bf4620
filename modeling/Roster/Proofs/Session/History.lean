import Mathlib.Data.List.DropRight
import Roster.Session.Basic

/-!
# `Roster.Proofs.Session.History`: a session is a function of what has succeeded

Requests are put to a session one after the other, and the session goes on after those that
fail. Each request brings its own source of tables, so a file may have changed, come or gone
between two loads of it.

`ofHistory` reads a session off a list of requests without running any of them: the table of the
last load, and what filters, aggregates and sorts have added, all of it or only what came after
the last load. The main result `afterAll_eq_ofHistory` says that this is the session after any
requests, for those among them that succeeded.

`step_load`, `step_filter`, `step_aggregate`, `step_sort` and `step_print` say all that a
statement does, and `Request.run_cases` puts them together: a request fails and changes nothing,
or it succeeds, and then there is a table and the query has what the request brings. A step that
succeeds so leads from the session of a history to that of the history with one more request
(`eq_ofHistory_concat`), and `afterAll_of_eq_ofHistory` is the induction over the requests. It
carries `NoQueryWithoutTable` along: a load drops the query only if there is a table, and where
there is none there has to be nothing to drop.
-/

set_option autoImplicit false

namespace Roster

namespace Session

variable {source : TableSource} {settings : Settings} {s : Session}

/-! ### What a statement does -/

/-- A load that finds its table makes it the loaded one, and starts over where the settings say so.
Otherwise nothing changes. -/
theorem step_load (path : String) :
    s.step source settings (.load path) =
      match source path with
      | .ok t => (.ok none,
          ⟨some t, if s.table.isSome && settings.reload == .reset then {} else s.query⟩)
      | .error cause => (.error (.load path cause), s) := by
  show ((do
    let t ← ofExcept ((source path).mapError (.load path))
    if (← get).table.isSome && settings.reload == .reset then
      modify clearQuery
    modify fun s => { s with table := some t }
    return none) : Action (Option Answer)).run.run s = _
  cases source path with
  | error cause => rfl
  | ok t =>
    show ((do
      if s.table.isSome && settings.reload == .reset then
        modify clearQuery
      modify fun s => { s with table := some t }
      return none) : Action (Option Answer)).run.run s
        = (.ok none, ⟨some t, if s.table.isSome && settings.reload == .reset then {} else s.query⟩)
    -- Whether the query is dropped is decided before the table is replaced.
    cases s.table.isSome && settings.reload == .reset <;> rfl

/-- An aggregate is asked for behind those asked for before. -/
theorem step_aggregate (function : AggregateFunction) (column : String) :
    s.step source settings (.aggregate function column) =
      match s.table with
      | none => (.error .noTable, s)
      | some _ => (.ok none,
          { s with query.aggregates := s.query.aggregates ++ [{ function, column }] }) := by
  obtain ⟨table, query⟩ := s
  cases table <;> rfl

/-- An order takes the place of the one before. -/
theorem step_sort (column : String) (direction : Direction) :
    s.step source settings (.sort column direction) =
      match s.table with
      | none => (.error .noTable, s)
      | some _ => (.ok none, { s with query.order := some { column, direction } }) := by
  obtain ⟨table, query⟩ := s
  cases table <;> rfl

/-- A filter adds its conditions to those before, if its clause can be read in this mode. -/
theorem step_filter (clause : Clause Comparison) :
    s.step source settings (.filter clause) =
      match s.table, settings.filterMode.combine clause with
      | none, _ => (.error .noTable, s)
      | some _, .error cause => (.error cause, s)
      | some _, .ok conditions => (.ok none,
          { s with query.conditions := s.query.conditions ++ conditions }) := by
  obtain ⟨table, query⟩ := s
  cases table with
  | none => rfl
  | some t =>
    show ((do
      let conditions ← ofExcept (settings.filterMode.combine clause)
      modify fun s => { s with query.conditions := s.query.conditions ++ conditions }
      return none) : Action (Option Answer)).run.run ⟨some t, query⟩ = _
    cases settings.filterMode.combine clause <;> rfl

/-- A print answers the query and changes nothing. -/
theorem step_print :
    s.step source settings .print =
      match s.table with
      | none => (.error .noTable, s)
      | some t => ((s.query.answer settings.emptyAverage t).map some, s) := by
  obtain ⟨table, query⟩ := s
  cases table with
  | none => rfl
  | some t =>
    show ((do
      let answer ← ofExcept (query.answer settings.emptyAverage t)
      return some answer) : Action (Option Answer)).run.run ⟨some t, query⟩
        = ((query.answer settings.emptyAverage t).map some, ⟨some t, query⟩)
    cases query.answer settings.emptyAverage t <;> rfl

end Session

/-! ### Histories -/

/-- A statement that is put to a session, and where it finds tables. -/
structure Request where
  source : TableSource
  statement : Statement

namespace Request

open Session

/-- What comes of a request, and the session after it. -/
def run (settings : Settings) (s : Session) (r : Request) :
    Except QueryError (Option Answer) × Session :=
  s.step r.source settings r.statement

/-- Whether a request is one for a table. -/
def isLoad : Request → Bool
  | ⟨_, .load _⟩ => true
  | _ => false

/-- The table that a request finds, if it is one for a table. -/
def table? : Request → Option Table
  | ⟨source, .load path⟩ => (source path).toOption
  | _ => none

/-- The conditions that a request adds to a query. -/
def conditions (mode : FilterMode) : Request → List Condition
  | ⟨_, .filter clause⟩ => (mode.combine clause).toOption.getD []
  | _ => []

/-- The aggregate that a request adds to a query. -/
def aggregate? : Request → Option Aggregate
  | ⟨_, .aggregate function column⟩ => some { function, column }
  | _ => none

/-- The order that a request sets. -/
def order? : Request → Option SortOrder
  | ⟨_, .sort column direction⟩ => some { column, direction }
  | _ => none

/-- A query with what a request brings. -/
def addTo (mode : FilterMode) (r : Request) (q : Query) : Query where
  conditions := q.conditions ++ r.conditions mode
  aggregates := q.aggregates ++ r.aggregate?.toList
  order := r.order?.or q.order

/-- A request for a table brings nothing for a query. -/
theorem addTo_of_isLoad {mode : FilterMode} {r : Request} {q : Query} (h : r.isLoad = true) :
    r.addTo mode q = q := by
  obtain ⟨source, statement⟩ := r
  cases statement with
  | load path => simp [addTo, conditions, aggregate?, order?]
  | _ => cases h

variable {settings : Settings} {s : Session}

/-- A request fails and leaves the session as it was, or it succeeds. Then there is a table, the
one that it has found or the one from before, and the query has what the request brings. -/
theorem run_cases (settings : Settings) (s : Session) (r : Request) :
    (∃ cause, r.run settings s = (.error cause, s)) ∨
    ∃ answer t, r.table?.or s.table = some t ∧
      r.run settings s = (.ok answer, ⟨some t, r.addTo settings.filterMode
        (if r.isLoad && s.table.isSome && settings.reload == .reset then {} else s.query)⟩) := by
  obtain ⟨source, statement⟩ := r
  unfold run
  cases statement with
  | load path =>
    rw [step_load]
    split
    · rename_i t hsource
      change source path = .ok t at hsource
      refine .inr ⟨none, t, by simp [table?, hsource, Except.toOption], ?_⟩
      rw [addTo_of_isLoad rfl]
      rfl
    · exact .inl ⟨_, rfl⟩
  | filter clause =>
    rw [step_filter]
    split
    · exact .inl ⟨_, rfl⟩
    · exact .inl ⟨_, rfl⟩
    · rename_i t added htable hcombine
      refine .inr ⟨none, t, htable, ?_⟩
      simp [addTo, conditions, aggregate?, order?, isLoad, htable, hcombine, Except.toOption]
  | aggregate function column =>
    rw [step_aggregate]
    split
    · exact .inl ⟨_, rfl⟩
    · rename_i t htable
      refine .inr ⟨none, t, htable, ?_⟩
      simp [addTo, conditions, aggregate?, order?, isLoad, htable]
  | sort column direction =>
    rw [step_sort]
    split
    · exact .inl ⟨_, rfl⟩
    · rename_i t htable
      refine .inr ⟨none, t, htable, ?_⟩
      simp [addTo, conditions, aggregate?, order?, isLoad, htable]
  | print =>
    rw [step_print]
    split
    · exact .inl ⟨_, rfl⟩
    · rename_i t htable
      cases s.query.answer settings.emptyAverage t with
      | error cause => exact .inl ⟨_, rfl⟩
      | ok answer =>
        refine .inr ⟨some answer, t, htable, ?_⟩
        simp [addTo, conditions, aggregate?, order?, isLoad, ← htable, Except.map]

/-- A request that fails leaves the session as it was. -/
theorem run_of_error {r : Request} {cause : QueryError}
    (h : (r.run settings s).1 = .error cause) : (r.run settings s).2 = s := by
  rcases r.run_cases settings s with ⟨cause', hrun⟩ | ⟨answer, t, -, hrun⟩
  · rw [hrun]
  · rw [hrun] at h
    cases h

end Request

namespace Session

variable {settings : Settings} {s : Session} {history : List Request} {r : Request}

/-- The session after some requests; it goes on after those that fail. -/
def afterAll (settings : Settings) (s : Session) (requests : List Request) : Session :=
  requests.foldl (fun s r => (r.run settings s).2) s

/-- The requests that succeed, of some that are put to a session. -/
def successes (settings : Settings) (s : Session) : List Request → List Request
  | [] => []
  | r :: rest =>
    match r.run settings s with
    | (.ok _, s) => r :: successes settings s rest
    | (.error _, s) => successes settings s rest

/-- The requests of a history that count towards the query: all of them, or those after the last
load. -/
def counted (reload : ReloadPolicy) (history : List Request) : List Request :=
  match reload with
  | .keep => history
  | .reset => history.rtakeWhile fun r => !r.isLoad

/-- The session of a history of requests that have succeeded: the table of the last load, the
conditions and aggregates of the requests that count, one after the other, and the last order. -/
def ofHistory (settings : Settings) (history : List Request) : Session where
  table := (history.filterMap Request.table?).getLast?
  query :=
    let counting := counted settings.reload history
    { conditions := counting.flatMap (Request.conditions settings.filterMode)
      aggregates := counting.filterMap Request.aggregate?
      order := (counting.filterMap Request.order?).getLast? }

/-- A request counts with those before it, or is a load that makes them count no more. -/
theorem counted_concat (reload : ReloadPolicy) (history : List Request) (r : Request) :
    counted reload (history ++ [r])
      = if reload = .reset ∧ r.isLoad = true then [] else counted reload history ++ [r] := by
  cases reload with
  | keep => rfl
  | reset =>
    rw [counted, List.rtakeWhile_concat]
    cases r.isLoad <;> rfl

/-- One more request replaces the table if it is for one, and adds to the query what it brings,
or to the empty one. -/
theorem ofHistory_concat (settings : Settings) (history : List Request) (r : Request) :
    ofHistory settings (history ++ [r]) =
      ⟨r.table?.or (ofHistory settings history).table,
        r.addTo settings.filterMode (if settings.reload = .reset ∧ r.isLoad = true then {}
          else (ofHistory settings history).query)⟩ := by
  have hlast : ∀ {α : Type} (f : Request → Option α) (l : List Request),
      ((l ++ [r]).filterMap f).getLast? = (f r).or (l.filterMap f).getLast? := by
    intro α f l
    rw [List.filterMap_append, List.getLast?_append]
    cases hr : f r <;> simp [hr]
  have haggregate : [r].filterMap Request.aggregate? = r.aggregate?.toList := by
    cases hr : r.aggregate? <;> simp [hr]
  simp only [ofHistory, hlast, counted_concat]
  split
  · rename_i hdrop
    rw [Request.addTo_of_isLoad hdrop.2]
    rfl
  · rw [hlast, List.flatMap_append, List.filterMap_append, haggregate, List.flatMap_singleton]
    rfl

/-! ### Runs -/

/-- Without a table there is no query. -/
def NoQueryWithoutTable (s : Session) : Prop := s.table = none → s.query = {}

/-- One more request does not make a query without a table: if it succeeds, there is a table. -/
theorem NoQueryWithoutTable.run (hs : s.NoQueryWithoutTable) (r : Request) :
    (r.run settings s).2.NoQueryWithoutTable := by
  rcases r.run_cases settings s with ⟨cause, h⟩ | ⟨answer, t, -, h⟩
  · rw [h]
    exact hs
  · rw [h]
    intro hnone
    cases hnone

/-- A request that succeeds leads from the session of a history to that of the longer one. -/
theorem eq_ofHistory_concat {s' : Session} {answer : Option Answer}
    (hquery : s.NoQueryWithoutTable) (hs : s = ofHistory settings history)
    (h : r.run settings s = (.ok answer, s')) : s' = ofHistory settings (history ++ [r]) := by
  rcases r.run_cases settings s with ⟨cause, hrun⟩ | ⟨answer', t, ht, hrun⟩
  · rw [hrun] at h
    cases h
  · rw [hrun] at h
    obtain ⟨-, rfl⟩ := Prod.mk.inj h
    rw [ofHistory_concat, ← hs, ht]
    cases htable : s.table with
    | none =>
      -- Nothing is dropped, and there is nothing to drop.
      rw [hquery htable]
      simp
    | some t => simp [and_comm]

/-- Requests lead from the session of a history to that of the history and their successes. The
induction is on the requests, and it carries that there is no query without a table. -/
theorem afterAll_of_eq_ofHistory (requests : List Request) (hquery : s.NoQueryWithoutTable)
    (hs : s = ofHistory settings history) :
    afterAll settings s requests = ofHistory settings (history ++ successes settings s requests) ∧
      (afterAll settings s requests).NoQueryWithoutTable := by
  induction requests generalizing s history with
  | nil =>
    rw [successes, List.append_nil]
    exact ⟨hs, hquery⟩
  | cons r requests ih =>
    rw [successes, afterAll, List.foldl_cons, ← afterAll]
    -- What fails leaves the session and the history, what succeeds makes both longer.
    split
    · rename_i answer s' hrun
      rw [hrun, List.append_cons]
      exact ih (hrun ▸ hquery.run r) (eq_ofHistory_concat hquery hs hrun)
    · rename_i cause s' hrun
      have hsame : s' = s := by
        rw [← Request.run_of_error (congrArg Prod.fst hrun), hrun]
      rw [hrun, hsame]
      exact ih hquery hs

/-- Where a load drops the query, nothing is left of it, whether or not there was a table. -/
theorem query_of_load {source : TableSource} {path : String} (hquery : s.NoQueryWithoutTable)
    (hreload : settings.reload = .reset) {answer : Option Answer}
    (h : (s.step source settings (.load path)).1 = .ok answer) :
    (s.step source settings (.load path)).2.query = {} := by
  rw [step_load] at h ⊢
  split at h
  · rw [hreload]
    cases htable : s.table with
    | none => exact hquery htable
    | some t => rfl
  · cases h

/-- After any requests, put to an empty session that goes on after those that fail, the session
is the one of the history of the requests that succeeded. There is no query without a table. A
further statement that fails leaves the session as it is, and so does a `print` whatever comes of
it; and where a load drops the query, it leaves an empty one. -/
theorem afterAll_eq_ofHistory (settings : Settings) (requests : List Request) :
    let s := afterAll settings empty requests
    s = ofHistory settings (successes settings empty requests) ∧
      (s.table = none → s.query = {}) ∧
      (∀ (r : Request) (cause : QueryError),
        (r.run settings s).1 = .error cause → (r.run settings s).2 = s) ∧
      (∀ source : TableSource, (s.step source settings .print).2 = s) ∧
      (settings.reload = .reset → ∀ (source : TableSource) (path : String) (answer : Option Answer),
        (s.step source settings (.load path)).1 = .ok answer →
          (s.step source settings (.load path)).2.query = {}) := by
  intro s
  have hempty : (empty : Session).NoQueryWithoutTable := fun _ => rfl
  -- The empty session is the one of no requests, from which the induction starts.
  have hstart : empty = ofHistory settings [] := by
    cases hreload : settings.reload <;> simp [ofHistory, counted, hreload] <;> rfl
  obtain ⟨hs, hquery⟩ := afterAll_of_eq_ofHistory requests hempty hstart
  refine ⟨hs, hquery, fun r cause h => Request.run_of_error h, fun source => ?_,
    fun hreload source path answer h => query_of_load hquery hreload h⟩
  rw [step_print]
  cases s.table <;> rfl

end Session

end Roster
