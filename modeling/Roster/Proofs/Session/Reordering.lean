import Roster.Proofs.Query.Answer
import Roster.Proofs.Session.Stopping

/-!
# `Roster.Proofs.Session.Reordering`: the order of what is put to a table does not matter

A filter, an aggregate and a sort look at no row. Each is added to the query, and what the query
asks for is found out at the next print. So two programs that load a table, add the same to the
query in two orders and print have the same rows to show, and the same number for each aggregate;
`outcome_run_of_perm` is the main result.

The two runs are not compared step by step, and where they fail they may do so at different
statements and for different reasons. Each run is read off on its own instead:
`outcome_run_load_print` says that it succeeds exactly if the table is found, every filter is
resolved and the query is answered, and that this query is the one of the history of the program
(`ofHistory_load`). None of this depends on the order of the statements but the order within two
lists of the query, its conditions and its aggregates, and the last order that is asked for;
of two sorts the last one wins, so there may be one at most.

`Query.Reordered` relates two such queries. They keep the same rows (`Reordered.kept_eq`), so the
answer to one is the answer to the other, but for the order of the entries of the aggregates
(`Reordered.exists_answer`).
-/

set_option autoImplicit false

namespace Roster

/-! ### Queries -/

namespace Query

variable {q q' : Query} {emptyAverage : EmptyAverage} {t : Table} {r : Answer}

/-- Two queries that ask for the same, perhaps with their conditions and their aggregates in two
orders. -/
structure Reordered (q q' : Query) : Prop where
  conditions : q.conditions.Perm q'.conditions
  aggregates : q.aggregates.Perm q'.aggregates
  order : q.order = q'.order

namespace Reordered

/-- The same rows are kept. -/
theorem kept_eq (h : q.Reordered q') (t : Table) : q.kept t = q'.kept t := by
  simp only [kept, h.conditions.mem_iff]

/-- The new query fits the tables that the old one does. -/
theorem fits (h : q.Reordered q') (hfits : q.Fits t) : q'.Fits t where
  conditions c hc := hfits.conditions c (h.conditions.mem_iff.2 hc)
  order o ho := hfits.order o (h.order ▸ ho)
  aggregates a ha := hfits.aggregates a (h.aggregates.mem_iff.2 ha)

/-- If one of the queries is answered, so is the other, with the same rows. The entries of the
aggregates are the same, each where its aggregate is asked for. -/
theorem exists_answer (h : q.Reordered q') (hr : q.answer emptyAverage t = .ok r) :
    ∃ r', q'.answer emptyAverage t = .ok r' ∧ r.rows = r'.rows ∧ r.rowCount = r'.rowCount ∧
      r.aggregates = q.aggregates.map (fun a => a.entry t.columnNames (q.kept t)) ∧
      r'.aggregates = q'.aggregates.map fun a => a.entry t.columnNames (q.kept t) := by
  obtain ⟨hfits, hfaults, hanswer⟩ := isAnswer_of_answer hr
  have hfaults' : ∀ a ∈ q'.aggregates, ¬a.Faults emptyAverage t.columnNames (q'.kept t) := by
    intro a ha
    rw [← h.kept_eq]
    exact hfaults a (h.aggregates.mem_iff.2 ha)
  obtain ⟨r', hr'⟩ := Query.exists_answer (h.fits hfits) hfaults'
  obtain ⟨-, -, hanswer'⟩ := isAnswer_of_answer hr'
  have hrows : r.rows = r'.rows := by
    have harranged := hanswer'.rows
    rw [← h.kept_eq, ← h.order] at harranged
    exact hanswer.rows.unique harranged
  refine ⟨r', hr', hrows, ?_, hanswer.aggregates, ?_⟩
  · rw [hanswer.rowCount, hanswer'.rowCount, hrows]
  · rw [hanswer'.aggregates, h.kept_eq]

end Reordered

end Query

/-! ### Statements that add to a query -/

namespace Statement

/-- Whether a statement adds to the query and does nothing else. -/
def addsToQuery : Statement → Bool
  | .filter _ | .aggregate .. | .sort .. => true
  | .load _ | .print => false

/-- Whether a statement is a sort. -/
def isSort : Statement → Bool
  | .sort .. => true
  | _ => false

/-- Whether a statement can be resolved: only a filter cannot, if one of its comparisons does not
match. -/
def Resolves (mode : FilterMode) : Statement → Prop
  | .filter clause => ∃ conditions, mode.combine clause = .ok conditions
  | _ => True

end Statement

/-- The aggregates that a program asks for, one after the other. -/
def Program.aggregates (p : Program) : List Aggregate :=
  p.filterMap fun
    | .aggregate function column => some { function, column }
    | _ => none

/-- The statements of a program, put to a session with one source of tables. -/
def Program.requests (source : TableSource) (p : Program) : List Request :=
  p.map fun statement => { source, statement }

namespace Program

/-- The aggregates among the requests of a script are those of its statements. -/
theorem filterMap_aggregate?_requests (source : TableSource) (p : Program) :
    (p.requests source).filterMap Request.aggregate? = p.aggregates := by
  rw [requests, List.filterMap_map, aggregates]
  refine List.filterMap_congr fun statement _ => ?_
  cases statement <;> rfl

/-- There are as many orders among the requests of a script as among its statements. -/
theorem length_filterMap_order?_requests (source : TableSource) (p : Program) :
    ((p.requests source).filterMap Request.order?).length = p.countP Statement.isSort := by
  rw [requests, List.filterMap_map, List.length_filterMap_eq_countP]
  refine List.countP_congr fun statement _ => ?_
  cases statement <;> simp [Request.order?, Statement.isSort]

end Program

namespace Session

variable {source : TableSource} {settings : Settings} {s s' : Session} {path : String}
  {statement : Statement} {p p' : Program} {history : List Request}
  {outcome : Option Answer} {outcomes : List (Option Answer)}

/-- A statement that adds to the query of a table succeeds exactly if it can be resolved. -/
theorem exists_step_iff (htable : s.table.isSome = true) (h : statement.addsToQuery = true) :
    (∃ outcome s', s.step source settings statement = (.ok outcome, s'))
      ↔ statement.Resolves settings.filterMode := by
  obtain ⟨t, ht⟩ := Option.isSome_iff_exists.1 htable
  cases statement with
  | load path => cases h
  | filter clause =>
    rw [step_filter, ht, Statement.Resolves]
    cases settings.filterMode.combine clause <;> simp
  | aggregate function column =>
    rw [step_aggregate, ht]
    simp [Statement.Resolves]
  | sort column direction =>
    rw [step_sort, ht]
    simp [Statement.Resolves]
  | print => cases h

/-- There is a table behind a statement that succeeds. -/
theorem isSome_table_of_step (h : s.step source settings statement = (.ok outcome, s')) :
    s'.table.isSome = true := by
  rcases Request.run_cases settings s ⟨source, statement⟩ with ⟨cause, hrun⟩ | ⟨answer, t, -, hrun⟩
  · cases h.symm.trans hrun
  · cases h.symm.trans hrun
    rfl

/-- Statements that add to the query of a table succeed exactly if all can be resolved. -/
theorem exists_succeeds_iff (htable : s.table.isSome = true)
    (hp : ∀ statement ∈ p, statement.addsToQuery = true) :
    (∃ outcomes s', Succeeds source settings s p outcomes s')
      ↔ ∀ statement ∈ p, statement.Resolves settings.filterMode := by
  induction p generalizing s with
  | nil => exact ⟨by simp, fun _ => ⟨[], s, .nil s⟩⟩
  | cons statement p ih =>
    obtain ⟨hstatement, hp⟩ := List.forall_mem_cons.1 hp
    rw [List.forall_mem_cons, ← exists_step_iff htable hstatement]
    constructor
    · rintro ⟨outcomes, s'', h⟩
      obtain _ | ⟨hstep, hrest⟩ := h
      exact ⟨⟨_, _, hstep⟩, (ih (isSome_table_of_step hstep) hp).1 ⟨_, _, hrest⟩⟩
    · rintro ⟨⟨outcome, s', hstep⟩, hresolves⟩
      obtain ⟨outcomes, s'', hrest⟩ := (ih (isSome_table_of_step hstep) hp).2 hresolves
      exact ⟨_, _, .cons hstep hrest⟩

/-! ### The query of a program -/

/-- Statements that succeed lead from the session of a history to that of the history with them. -/
theorem Succeeds.eq_ofHistory (h : Succeeds source settings s p outcomes s')
    (hquery : s.NoQueryWithoutTable) (hs : s = ofHistory settings history) :
    s' = ofHistory settings (history ++ p.requests source) := by
  induction h generalizing history with
  | nil => simpa [Program.requests] using hs
  | @cons s s' _ statement p outcome _ hstep _ ih =>
    have hrun : (Request.mk source statement).run settings s = (.ok outcome, s') := hstep
    have hquery' : s'.NoQueryWithoutTable := by
      have hafter : ((Request.mk source statement).run settings s).2.NoQueryWithoutTable :=
        hquery.run _
      rwa [hrun] at hafter
    rw [Program.requests, List.map_cons, List.append_cons, ← Program.requests]
    exact ih hquery' (eq_ofHistory_concat hquery hs hrun)

/-- Before any request there is an empty session. -/
theorem ofHistory_nil (settings : Settings) : ofHistory settings [] = empty := by
  rw [ofHistory]
  cases settings.reload <;> rfl

/-- What follows without a load counts. -/
theorem counted_append (reload : ReloadPolicy) (requests : List Request)
    (h : ∀ r ∈ history, r.isLoad = false) :
    counted reload (requests ++ history) = counted reload requests ++ history := by
  induction history using List.reverseRecOn with
  | nil => simp
  | append_singleton history r ih =>
    obtain ⟨hhistory, hr⟩ := List.forall_mem_append.1 h
    have hr : r.isLoad = false := hr r (List.mem_singleton_self r)
    rw [← List.append_assoc, counted_concat, if_neg (by simp [hr]), ih hhistory, List.append_assoc]

/-- The session of a program that loads a table and adds to the query: the table, and all that is
added. -/
theorem ofHistory_load (hp : ∀ statement ∈ p, statement.addsToQuery = true) :
    ofHistory settings (Program.requests source (.load path :: p)) =
      ⟨(source path).toOption,
        { conditions := (p.requests source).flatMap (Request.conditions settings.filterMode)
          aggregates := p.aggregates
          order := ((p.requests source).filterMap Request.order?).getLast? }⟩ := by
  have hnoLoad : ∀ r ∈ p.requests source, r.isLoad = false ∧ r.table? = none := by
    intro r hr
    obtain ⟨statement, hstatement, rfl⟩ := List.mem_map.1 hr
    cases statement with
    | load path => cases hp _ hstatement
    | _ => exact ⟨rfl, rfl⟩
  have htables : (p.requests source).filterMap Request.table? = [] :=
    List.filterMap_eq_nil_iff.2 fun r hr => (hnoLoad r hr).2
  have hcounted : counted settings.reload (⟨source, .load path⟩ :: p.requests source)
      = counted settings.reload [⟨source, .load path⟩] ++ p.requests source :=
    counted_append settings.reload [_] fun r hr => (hnoLoad r hr).1
  have hload : Request.table? ⟨source, .load path⟩ = (source path).toOption := rfl
  rw [Program.requests, List.map_cons, ← Program.requests, ofHistory, hcounted,
    List.filterMap_cons, htables, hload, ← Program.filterMap_aggregate?_requests source p]
  congr 1
  · cases (source path).toOption <;> rfl
  · -- The load adds nothing to the query, whether or not it counts itself.
    cases settings.reload <;> rfl

/-- A program that loads a table and adds to the query succeeds exactly if the table is found and
every filter is resolved. -/
theorem exists_succeeds_load_iff (hp : ∀ statement ∈ p, statement.addsToQuery = true) :
    (∃ outcomes s', Succeeds source settings empty (.load path :: p) outcomes s')
      ↔ (∃ t, source path = .ok t) ∧
        ∀ statement ∈ p, statement.Resolves settings.filterMode := by
  have hload : ∀ {outcome s}, empty.step source settings (.load path) = (.ok outcome, s) →
      ∃ t, source path = .ok t := by
    intro outcome s hstep
    rw [step_load] at hstep
    cases hpath : source path with
    | error cause =>
      rw [hpath] at hstep
      cases hstep
    | ok t => exact ⟨t, rfl⟩
  constructor
  · rintro ⟨outcomes, s', h⟩
    -- The load comes first, and behind it there is a table.
    obtain _ | ⟨hstep, h⟩ := h
    exact ⟨hload hstep, (exists_succeeds_iff (isSome_table_of_step hstep) hp).1 ⟨_, _, h⟩⟩
  · rintro ⟨⟨t, ht⟩, hresolves⟩
    have hstep : empty.step source settings (.load path) = (.ok none, ⟨some t, {}⟩) := by
      rw [step_load, ht]
      rfl
    obtain ⟨outcomes, s', h⟩ := (exists_succeeds_iff (isSome_table_of_step hstep) hp).2 hresolves
    exact ⟨_, _, .cons hstep h⟩

/-- Nothing is answered before the print, and it comes to the session of the history. -/
theorem Succeeds.eq_ofHistory_load (hp : ∀ statement ∈ p, statement.addsToQuery = true)
    (h : Succeeds source settings empty (.load path :: p) outcomes s) :
    outcomes.reduceOption = [] ∧
      s = ofHistory settings (Program.requests source (.load path :: p)) := by
  have hprint : Statement.print ∉ Statement.load path :: p := by
    intro hmem
    cases hp _ ((List.mem_cons.1 hmem).resolve_left (by simp))
  have hlast := h.getLast?_eq_none_iff.2 hprint
  exact ⟨List.getLast?_eq_none_iff.1 hlast,
    h.eq_ofHistory (fun _ => rfl) (ofHistory_nil settings).symm⟩

/-- A print of a session with a table succeeds exactly if the query is answered. -/
theorem succeeds_print_iff {t : Table} (htable : s.table = some t) :
    Succeeds source settings s [.print] outcomes s'
      ↔ ∃ r, s.query.answer settings.emptyAverage t = .ok r ∧ outcomes = [some r] ∧ s' = s := by
  have hprint : s.step source settings .print
      = ((s.query.answer settings.emptyAverage t).map some, s) := by
    rw [step_print, htable]
  constructor
  · intro h
    obtain _ | ⟨hstep, hnil⟩ := h
    cases hnil
    rw [hprint] at hstep
    obtain ⟨houtcome, rfl⟩ := Prod.mk.inj hstep
    obtain ⟨r, hr, rfl⟩ := map_eq_ok_iff.1 houtcome
    exact ⟨r, hr, rfl, rfl⟩
  · rintro ⟨r, hr, rfl, rfl⟩
    refine .cons ?_ (.nil s')
    rw [hprint, hr]
    rfl

/-- A program that loads a table, adds to the query and prints has an answer exactly if the table
is found, every filter is resolved and the query of its history is answered. -/
theorem outcome_run_load_print (hp : ∀ statement ∈ p, statement.addsToQuery = true)
    {answers : List Answer} :
    (empty.run source settings (.load path :: p ++ [.print])).outcome = .ok answers
      ↔ ∃ t r, source path = .ok t ∧
        (∀ statement ∈ p, statement.Resolves settings.filterMode) ∧
        (ofHistory settings (Program.requests source (.load path :: p))).query.answer
          settings.emptyAverage t = .ok r ∧
        answers = [r] := by
  have htable : ∀ {t}, source path = .ok t →
      (ofHistory settings (Program.requests source (.load path :: p))).table = some t := by
    intro t ht
    rw [ofHistory_load hp, ht]
    rfl
  rw [outcome_run_eq_ok_iff]
  constructor
  · rintro ⟨outcomes, s', h, rfl⟩
    -- Only the print at the end has an answer, and it asks the query of the history.
    obtain ⟨done, last, s, hdone, hlast, rfl⟩ := h.exists_of_append
    obtain ⟨⟨t, ht⟩, hresolves⟩ := (exists_succeeds_load_iff hp).1 ⟨_, _, hdone⟩
    obtain ⟨hnone, rfl⟩ := hdone.eq_ofHistory_load hp
    obtain ⟨r, hr, rfl, -⟩ := (succeeds_print_iff (htable ht)).1 hlast
    refine ⟨t, r, ht, hresolves, hr, ?_⟩
    rw [List.reduceOption_append, hnone]
    rfl
  · rintro ⟨t, r, ht, hresolves, hr, rfl⟩
    obtain ⟨done, s, hdone⟩ := (exists_succeeds_load_iff hp).2 ⟨⟨t, ht⟩, hresolves⟩
    obtain ⟨hnone, rfl⟩ := hdone.eq_ofHistory_load hp
    refine ⟨_, _, hdone.append ((succeeds_print_iff (htable ht)).2 ⟨r, hr, rfl, rfl⟩), ?_⟩
    rw [List.reduceOption_append, hnone]
    rfl

/-! ### The order of statements -/

/-- There is one way only to order one entry or none. -/
theorem eq_of_perm_of_length_le_one {α : Type} {xs ys : List α} (h : xs.Perm ys)
    (hlength : xs.length ≤ 1) : xs = ys := by
  match xs, hlength with
  | [], _ => exact h.nil_eq
  | [x], _ => exact (List.perm_singleton.1 h.symm).symm

/-- Two programs that add the same to the query of a table, at most one sort among it, ask for the
same. -/
theorem reordered_ofHistory (h : p.Perm p') (hp : ∀ statement ∈ p, statement.addsToQuery = true)
    (hsort : p.countP Statement.isSort ≤ 1) :
    (ofHistory settings (Program.requests source (.load path :: p))).query.Reordered
      (ofHistory settings (Program.requests source (.load path :: p'))).query := by
  have hp' : ∀ statement ∈ p', statement.addsToQuery = true :=
    fun statement hstatement => hp statement (h.mem_iff.2 hstatement)
  have hrequests : (p.requests source).Perm (p'.requests source) := h.map _
  have horders : (p.requests source).filterMap Request.order?
      = (p'.requests source).filterMap Request.order? := by
    refine eq_of_perm_of_length_le_one (hrequests.filterMap _) ?_
    rwa [Program.length_filterMap_order?_requests]
  rw [ofHistory_load hp, ofHistory_load hp']
  exact ⟨hrequests.flatMap_right _, h.filterMap _, congrArg List.getLast? horders⟩

/-- If one of two such programs has an answer at its print, so has the other, with the same rows and
the same entries for the aggregates. -/
theorem exists_answer_of_perm (h : p.Perm p') (hp : ∀ statement ∈ p, statement.addsToQuery = true)
    (hsort : p.countP Statement.isSort ≤ 1) {answers : List Answer}
    (hrun : (empty.run source settings (.load path :: p ++ [.print])).outcome = .ok answers) :
    ∃ r r', answers = [r] ∧
      (empty.run source settings (.load path :: p' ++ [.print])).outcome = .ok [r'] ∧
      r.rows = r'.rows ∧ r.rowCount = r'.rowCount ∧
      ∃ value : Aggregate → Double,
        r.aggregates = p.aggregates.map (fun a => (a.name, value a)) ∧
        r'.aggregates = p'.aggregates.map fun a => (a.name, value a) := by
  have hp' : ∀ statement ∈ p', statement.addsToQuery = true :=
    fun statement hstatement => hp statement (h.mem_iff.2 hstatement)
  obtain ⟨t, r, ht, hresolves, hr, hanswers⟩ := (outcome_run_load_print hp).1 hrun
  have hresolves' : ∀ statement ∈ p', statement.Resolves settings.filterMode :=
    fun statement hstatement => hresolves statement (h.mem_iff.2 hstatement)
  obtain ⟨r', hr', hrows, hrowCount, haggregates, haggregates'⟩ :=
    (reordered_ofHistory h hp hsort).exists_answer hr
  rw [ofHistory_load hp] at haggregates haggregates'
  rw [ofHistory_load hp'] at haggregates'
  exact ⟨r, r', hanswers, (outcome_run_load_print hp').2 ⟨t, r', ht, hresolves', hr', rfl⟩,
    hrows, hrowCount, _, haggregates, haggregates'⟩

/-- Filters, aggregates and at most one sort can be put to a table in any order. In two orders they
fail both, or both have an answer at the next print, and these have the same rows in the same
order. An entry belongs to its aggregate: the entries are in the order in which the aggregates are
asked for. -/
theorem outcome_run_of_perm (source : TableSource) (settings : Settings) (path : String)
    (h : p.Perm p') (hp : ∀ statement ∈ p, statement.addsToQuery = true)
    (hsort : p.countP Statement.isSort ≤ 1) :
    let outcome := fun p : Program =>
      (empty.run source settings (.load path :: p ++ [.print])).outcome
    ((∃ e, outcome p = .error e) ∧ ∃ e, outcome p' = .error e) ∨
    ∃ r r', outcome p = .ok [r] ∧ outcome p' = .ok [r'] ∧
      r.rows = r'.rows ∧ r.rowCount = r'.rowCount ∧
      ∃ value : Aggregate → Double,
        r.aggregates = p.aggregates.map (fun a => (a.name, value a)) ∧
        r'.aggregates = p'.aggregates.map fun a => (a.name, value a) := by
  intro outcome
  have hp' : ∀ statement ∈ p', statement.addsToQuery = true :=
    fun statement hstatement => hp statement (h.mem_iff.2 hstatement)
  have hsort' : p'.countP Statement.isSort ≤ 1 := h.countP_eq _ ▸ hsort
  -- The faults of the two need not be the same, so a failure is carried over by its absence.
  cases hrun : outcome p with
  | error e =>
    cases hrun' : outcome p' with
    | error e' => exact .inl ⟨⟨e, rfl⟩, e', rfl⟩
    | ok answers =>
      obtain ⟨r', r, -, hsome, -⟩ := exists_answer_of_perm h.symm hp' hsort' hrun'
      cases hrun.symm.trans hsome
  | ok answers =>
    obtain ⟨r, r', rfl, hrun', hsame⟩ := exists_answer_of_perm h hp hsort hrun
    exact .inr ⟨r, r', rfl, hrun', hsame⟩

/-- A sum, two filters and a sort in two orders. -/
theorem outcome_run_of_perm_sum_filters_sort :
    let source : TableSource := fun _ => Table.ofCells ["n", "s"]
      [[.null, .text "a"], [.number .zero, .text "b"], [.number (Double.ofNat 1), .null]]
    let bounds : Statement := .filter (.leaf ⟨"n", .relation .lessEqual, .number .zero⟩)
    let texts : Statement := .filter (.leaf ⟨"s", .relation .notEqual, .text "a"⟩)
    let sum : Statement := .aggregate .sum "n"
    let count : Statement := .aggregate .count "s"
    let sort : Statement := .sort "s" .descending
    let p : Program := [sum, bounds, count, sort, texts]
    let p' : Program := [sort, texts, count, sum, bounds]
    let outcome := fun p : Program =>
      (empty.run source {} (.load "t" :: p ++ [.print])).outcome
    p.Perm p' ∧ (∀ statement ∈ p, statement.addsToQuery = true) ∧
    p.countP Statement.isSort ≤ 1 ∧
    (((∃ e, outcome p = .error e) ∧ ∃ e, outcome p' = .error e) ∨
    ∃ r r', outcome p = .ok [r] ∧ outcome p' = .ok [r'] ∧
      r.rows = r'.rows ∧ r.rowCount = r'.rowCount ∧
      ∃ value : Aggregate → Double,
        r.aggregates = p.aggregates.map (fun a => (a.name, value a)) ∧
        r'.aggregates = p'.aggregates.map fun a => (a.name, value a)) := by
  intro source bounds texts sum count sort p p' outcome
  have hperm : p.Perm p' := by decide
  have hp : ∀ statement ∈ p, statement.addsToQuery = true := by decide
  have hsort : p.countP Statement.isSort ≤ 1 := by decide
  exact ⟨hperm, hp, hsort, outcome_run_of_perm source {} "t" hperm hp hsort⟩

end Session

end Roster
