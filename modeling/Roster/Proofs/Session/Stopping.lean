import Mathlib.Data.List.ReduceOption
import Roster.Proofs.Outcome
import Roster.Proofs.Session.History
import Roster.Proofs.Session.Runs

/-!
# `Roster.Proofs.Session.Stopping`: a program stops at its first failing statement

`Session.Succeeds` says without any loop that statements succeed one after the other, each in the
session that the one before it leaves, and what comes of each of them. Something comes of a print
and of nothing else (`Succeeds.isSome_iff`), so what comes of some statements is one answer for
each print among them, in their order.

Every program succeeds, or it splits at a statement that fails in the session which the statements
before it leave (`exists_split`). `runFrom_of_succeeds` and `runFrom_of_fails` are the runs of the
two: neither says anything of the statements behind the failing one, and the failing one changes
nothing. So a run has answers exactly if its program succeeds (`outcome_run_eq_ok_iff`).

`Session.runEach` is a run that is listened to: a listener, which may be in any state, is handed
each answer when it is found, and only the last answer is kept. It is the run with its answers
handed over from first to last (`runEach_eq`), so nothing is handed over that was found behind a
failure, and nothing twice.

`runEach_stops_at_first_failure` is the main result.
-/

set_option autoImplicit false

namespace Roster

/-- The failure with its place counted from an earlier one. -/
def StatementError.shift (places : Nat) (e : StatementError) : StatementError :=
  { e with index := places + e.index }

namespace Session

variable {source : TableSource} {settings : Settings} {s s' s'' : Session}
  {statement failing : Statement} {p q before after : Program} {outcome : Option Answer}
  {outcomes : List (Option Answer)} {cause : QueryError}

/-! ### Statements that succeed -/

/-- Statements succeed one after the other: what comes of each, and the session that the last one
leaves. -/
inductive Succeeds (source : TableSource) (settings : Settings) :
    Session → Program → List (Option Answer) → Session → Prop
  | nil (s : Session) : Succeeds source settings s [] [] s
  | cons {s s' s'' : Session} {statement : Statement} {rest : Program} {outcome : Option Answer}
      {outcomes : List (Option Answer)} :
      s.step source settings statement = (.ok outcome, s') →
      Succeeds source settings s' rest outcomes s'' →
      Succeeds source settings s (statement :: rest) (outcome :: outcomes) s''

/-- A statement that fails leaves the session as it was. -/
theorem step_of_error (h : s.step source settings statement = (.error cause, s')) : s' = s := by
  have hsame := Request.run_of_error (r := ⟨source, statement⟩) (congrArg Prod.fst h)
  rw [← hsame]
  exact (congrArg Prod.snd h).symm

/-- There is an answer exactly if a statement that succeeds is a print. Each of the other four
statements gives nothing if it succeeds. -/
theorem isSome_of_step (h : s.step source settings statement = (.ok outcome, s')) :
    outcome.isSome = true ↔ statement = .print := by
  cases statement with
  | load path =>
    rw [step_load] at h
    split at h <;> simp_all
  | filter clause =>
    rw [step_filter] at h
    split at h <;> simp_all
  | aggregate function column =>
    rw [step_aggregate] at h
    split at h <;> simp_all
  | sort column direction =>
    rw [step_sort] at h
    split at h <;> simp_all
  | print =>
    rw [step_print] at h
    split at h
    · cases h
    · obtain ⟨answer, -, hsome⟩ := map_eq_ok_iff.1 (congrArg Prod.fst h)
      simp [← hsome]

namespace Succeeds

/-- What comes of statements is an answer for each print, and nothing for the others. -/
theorem isSome_iff (h : Succeeds source settings s p outcomes s') :
    List.Forall₂ (fun statement outcome => outcome.isSome = true ↔ statement = .print)
      p outcomes := by
  induction h with
  | nil => exact .nil
  | cons hstep _ ih => exact .cons (isSome_of_step hstep) ih

/-- Statements that succeed can be followed by others. -/
theorem append {outcomes' : List (Option Answer)} (hp : Succeeds source settings s p outcomes s')
    (hq : Succeeds source settings s' q outcomes' s'') :
    Succeeds source settings s (p ++ q) (outcomes ++ outcomes') s'' := by
  induction hp with
  | nil => exact hq
  | cons hstep _ ih => exact .cons hstep (ih hq)

/-- Statements that succeed do so up to any place between them, and from there on. -/
theorem exists_of_append (h : Succeeds source settings s (p ++ q) outcomes s'') :
    ∃ done rest s', Succeeds source settings s p done s' ∧
      Succeeds source settings s' q rest s'' ∧ outcomes = done ++ rest := by
  induction p generalizing s outcomes with
  | nil => exact ⟨[], outcomes, s, .nil s, h, rfl⟩
  | cons statement p ih =>
    obtain _ | ⟨hstep, h⟩ := h
    obtain ⟨done, rest, s', hp, hq, rfl⟩ := ih h
    exact ⟨_ :: done, rest, s', .cons hstep hp, hq, rfl⟩

/-- There is a last answer unless there is no print. -/
theorem getLast?_eq_none_iff (h : Succeeds source settings s p outcomes s') :
    outcomes.reduceOption.getLast? = none ↔ .print ∉ p := by
  rw [List.getLast?_eq_none_iff]
  induction h with
  | nil => simp
  | @cons _ _ _ statement rest outcome outcomes hstep _ ih =>
    have hprint := isSome_of_step hstep
    rw [List.mem_cons, not_or, ← ih, ← Ne.eq_def, ne_comm]
    cases outcome with
    | none =>
      have hother : statement ≠ .print := by simpa using hprint
      simp [hother]
    | some answer =>
      have hsame : statement = .print := by simpa using hprint
      simp [hsame]

end Succeeds

/-- A program succeeds, or it splits at a statement that fails after those before it have
succeeded. -/
theorem exists_split (source : TableSource) (settings : Settings) (s : Session) (p : Program) :
    (∃ outcomes s', Succeeds source settings s p outcomes s') ∨
    ∃ before failing after outcomes s' cause, p = before ++ failing :: after ∧
      Succeeds source settings s before outcomes s' ∧
      s'.step source settings failing = (.error cause, s') := by
  induction p generalizing s with
  | nil => exact .inl ⟨[], s, .nil s⟩
  | cons statement rest ih =>
    obtain ⟨result, s', hstep⟩ : ∃ result s', s.step source settings statement = (result, s') :=
      ⟨_, _, rfl⟩
    cases result with
    | error cause =>
      obtain rfl := step_of_error hstep
      exact .inr ⟨[], statement, rest, [], s', cause, rfl, .nil s', hstep⟩
    | ok outcome =>
      rcases ih s' with ⟨outcomes, s'', hrest⟩ |
        ⟨before, failing, after, outcomes, s'', cause, rfl, hbefore, hfails⟩
      · exact .inl ⟨outcome :: outcomes, s'', .cons hstep hrest⟩
      · exact .inr ⟨statement :: before, failing, after, outcome :: outcomes, s'', cause, rfl,
          .cons hstep hbefore, hfails⟩

/-! ### Runs -/

/-- The answers of a run come from the first statement on. -/
theorem toList_append_reduceOption (outcome : Option Answer) (outcomes : List (Option Answer)) :
    outcome.toList ++ outcomes.reduceOption = (outcome :: outcomes).reduceOption := by
  cases outcome <;> simp

/-- Statements that succeed run through, whatever place is counted from. -/
theorem runFrom_of_succeeds (h : Succeeds source settings s p outcomes s') (i : Nat) :
    s.runFrom source settings i p = ⟨outcomes.reduceOption, s', none⟩ := by
  induction h generalizing i with
  | nil => rfl
  | cons hstep _ ih => rw [runFrom_cons hstep, ih, ← toList_append_reduceOption]

/-- A statement that fails ends the run, whatever stands behind it. -/
theorem runFrom_of_fails (h : Succeeds source settings s before outcomes s')
    (hfails : s'.step source settings failing = (.error cause, s')) (i : Nat) (after : Program) :
    s.runFrom source settings i (before ++ failing :: after)
      = ⟨outcomes.reduceOption, s', some ⟨i + before.length, failing.keyword, cause⟩⟩ := by
  have hbefore := runFrom_of_succeeds h i
  rw [runFrom_append (congrArg Run.failure hbefore), hbefore]
  dsimp only
  rw [runFrom, hfails]
  simp

/-- A program has answers exactly if its statements succeed, and what comes of these is the
answers. -/
theorem outcome_run_eq_ok_iff {answers : List Answer} :
    (s.run source settings p).outcome = .ok answers
      ↔ ∃ outcomes s', Succeeds source settings s p outcomes s' ∧
        answers = outcomes.reduceOption := by
  constructor
  · intro h
    rcases exists_split source settings s p with ⟨outcomes, s', hp⟩ |
      ⟨before, failing, after, outcomes, s', cause, rfl, hbefore, hfails⟩
    · rw [run, runFrom_of_succeeds hp] at h
      cases h
      exact ⟨outcomes, s', hp, rfl⟩
    · rw [run, runFrom_of_fails hbefore hfails] at h
      cases h
  · rintro ⟨outcomes, s', hp, rfl⟩
    rw [run, runFrom_of_succeeds hp]
    rfl

/-! ### Runs that are listened to -/

variable {σ : Type}

/-- Runs statements the first of which has a given place in its program, with the last answer that
has been found before. Each answer is handed to a listener as soon as it is found. What is left is
the last answer or the failing statement, the session, and the state of the listener. -/
def runEachFrom (source : TableSource) (settings : Settings) (listen : σ → Answer → σ)
    (index : Nat) (last : Option Answer) (s : Session) (w : σ) :
    Program → Except StatementError (Option Answer) × Session × σ
  | [] => (.ok last, s, w)
  | statement :: rest =>
    match s.step source settings statement with
    | (.error cause, s) => (.error { index, keyword := statement.keyword, cause }, s, w)
    | (.ok none, s) => runEachFrom source settings listen (index + 1) last s w rest
    | (.ok (some answer), s) =>
      runEachFrom source settings listen (index + 1) (some answer) s (listen w answer) rest

/-- Runs a program that is listened to. -/
def runEach (source : TableSource) (settings : Settings) (listen : σ → Answer → σ) (s : Session)
    (w : σ) (p : Program) : Except StatementError (Option Answer) × Session × σ :=
  runEachFrom source settings listen 0 none s w p

/-- A run that tells its answers is the run that collects them, told afterwards one by one. The
induction is on the statements. The last answer so far is carried along, and it is kept only if no
later one comes. -/
theorem runEachFrom_eq (listen : σ → Answer → σ) (i : Nat) (last : Option Answer) (w : σ) :
    s.runEachFrom source settings listen i last w p =
      let r := s.runFrom source settings i p
      (r.failure.elim (.ok (r.last?.or last)) .error, r.session, r.answers.foldl listen w) := by
  induction p generalizing s i last w with
  | nil => rfl
  | cons statement rest ih =>
    rw [runEachFrom]
    split
    · rename_i hstep
      rw [runFrom, hstep]
      rfl
    · rename_i hstep
      rw [runFrom_cons hstep, ih]
      rfl
    · rename_i answer s' hstep
      rw [runFrom_cons hstep, ih]
      -- The answer that is handed over is the last one only if no other answer follows.
      have hlast : ∀ answers : List Answer,
          (answers.getLast?.or (some answer)).or last
            = ((answer :: answers).getLast?).or last := by
        intro answers
        rw [List.getLast?_cons]
        cases answers.getLast? <;> rfl
      simp only [Run.last?, Option.toList_some, List.singleton_append, List.foldl_cons, ← hlast,
        Option.or_assoc, Option.some_or]

/-- A run that is listened to is the run, with its answers handed over from first to last. -/
theorem runEach_eq (source : TableSource) (settings : Settings) (listen : σ → Answer → σ)
    (s : Session) (w : σ) (p : Program) :
    s.runEach source settings listen w p =
      let r := s.run source settings p
      (r.failure.elim (.ok r.last?) .error, r.session, r.answers.foldl listen w) := by
  rw [runEach, runEachFrom_eq]
  simp only [Option.or_none, run]

variable {listen : σ → Answer → σ} {w w' : σ}

/-- A run without a failure tells all answers and returns the last one. -/
theorem runEach_of_succeeds (h : Succeeds source settings s p outcomes s') :
    s.runEach source settings listen w p
      = (.ok outcomes.reduceOption.getLast?, s', outcomes.reduceOption.foldl listen w) := by
  rw [runEach_eq, run, runFrom_of_succeeds h]
  rfl

/-- A run with a failure tells the answers before it and reports the statement. -/
theorem runEach_of_fails (h : Succeeds source settings s before outcomes s')
    (hfails : s'.step source settings failing = (.error cause, s')) :
    s.runEach source settings listen w (before ++ failing :: after)
      = (.error ⟨before.length, failing.keyword, cause⟩, s',
        outcomes.reduceOption.foldl listen w) := by
  rw [runEach_eq, run, runFrom_of_fails h hfails, Nat.zero_add]
  rfl

/-- Two programs are run as one: the second is not run if the first fails, its failure is counted
from the end of the first, and the last answer is one of the first program if the second has
none. -/
theorem runEach_append (listen : σ → Answer → σ) (s : Session) (w : σ) (p q : Program) :
    s.runEach source settings listen w (p ++ q) =
      match s.runEach source settings listen w p with
      | (.error e, s', w') => (.error e, s', w')
      | (.ok last, s', w') =>
        let (result, s'', w'') := s'.runEach source settings listen w' q
        ((result.map (·.or last)).mapError (.shift p.length), s'', w'') := by
  -- Either program succeeds or is cut at the statement that fails.
  rcases exists_split source settings s p with ⟨outcomes, s', hp⟩ |
    ⟨before, failing, after, outcomes, s', cause, rfl, hbefore, hfails⟩
  · rw [runEach_of_succeeds hp]
    dsimp only
    rcases exists_split source settings s' q with ⟨outcomes', s'', hq⟩ |
      ⟨before, failing, after, outcomes', s'', cause, rfl, hbefore, hfails⟩
    · rw [runEach_of_succeeds hq, runEach_of_succeeds (hp.append hq), List.reduceOption_append,
        List.foldl_append, List.getLast?_append]
      rfl
    · rw [runEach_of_fails hbefore hfails, ← List.append_assoc,
        runEach_of_fails (hp.append hbefore) hfails, List.reduceOption_append, List.foldl_append,
        List.length_append]
      rfl
  · rw [runEach_of_fails hbefore hfails, List.append_assoc, List.cons_append,
      runEach_of_fails hbefore hfails]

/-- A program that is listened to runs up to its first statement that fails.

- It fails as this statement does, in the session that the statements before it leave: each of
  these has succeeded, the failing one leaves the session as it is, and the answers handed over
  are those of the prints before it.
- It succeeds exactly if all its statements do. The answers of all prints have then been handed
  over, and the last of them is kept; none is, if there is no print.
- What comes of statements that succeed is an answer for each print and nothing for the others.
- A program followed by another is both run one after the other.
- All of it is the run of the program. -/
theorem runEach_stops_at_first_failure (source : TableSource) (settings : Settings)
    (listen : σ → Answer → σ) (s : Session) (w : σ) (p : Program) :
    (∀ e s' w', s.runEach source settings listen w p = (.error e, s', w')
      ↔ ∃ before failing after outcomes, p = before ++ failing :: after ∧
        e.index = before.length ∧ e.keyword = failing.keyword ∧
        Succeeds source settings s before outcomes s' ∧
        s'.step source settings failing = (.error e.cause, s') ∧
        w' = outcomes.reduceOption.foldl listen w) ∧
    (∀ last s' w', s.runEach source settings listen w p = (.ok last, s', w')
      ↔ ∃ outcomes, Succeeds source settings s p outcomes s' ∧
        w' = outcomes.reduceOption.foldl listen w ∧
        last = outcomes.reduceOption.getLast? ∧ (last = none ↔ .print ∉ p)) ∧
    (∀ done outcomes s', Succeeds source settings s done outcomes s' →
      List.Forall₂ (fun statement outcome => outcome.isSome = true ↔ statement = .print)
        done outcomes) ∧
    (∀ q : Program, s.runEach source settings listen w (p ++ q) =
      match s.runEach source settings listen w p with
      | (.error e, s', w') => (.error e, s', w')
      | (.ok last, s', w') =>
        let (result, s'', w'') := s'.runEach source settings listen w' q
        ((result.map (·.or last)).mapError (.shift p.length), s'', w'')) ∧
    s.runEach source settings listen w p =
      let r := s.run source settings p
      (r.failure.elim (.ok r.last?) .error, r.session, r.answers.foldl listen w) := by
  refine ⟨fun e s' w' => ⟨fun h => ?_, ?_⟩, fun last s' w' => ⟨fun h => ?_, ?_⟩,
    fun done outcomes s' h => h.isSome_iff, runEach_append listen s w p,
    runEach_eq source settings listen s w p⟩
  · -- A program that fails is cut at one statement, which is the one that is reported.
    rcases exists_split source settings s p with ⟨outcomes, t, hp⟩ |
      ⟨before, failing, after, outcomes, t, cause, rfl, hbefore, hfails⟩
    · rw [runEach_of_succeeds hp] at h
      cases h
    · rw [runEach_of_fails hbefore hfails] at h
      cases h
      exact ⟨before, failing, after, outcomes, rfl, rfl, rfl, hbefore, hfails, rfl⟩
  · rintro ⟨before, failing, after, outcomes, rfl, hindex, hkeyword, hbefore, hfails, rfl⟩
    rw [runEach_of_fails hbefore hfails, ← hindex, ← hkeyword]
  · rcases exists_split source settings s p with ⟨outcomes, t, hp⟩ |
      ⟨before, failing, after, outcomes, t, cause, rfl, hbefore, hfails⟩
    · rw [runEach_of_succeeds hp] at h
      cases h
      exact ⟨outcomes, hp, rfl, rfl, hp.getLast?_eq_none_iff⟩
    · rw [runEach_of_fails hbefore hfails] at h
      cases h
  · rintro ⟨outcomes, hp, rfl, rfl, -⟩
    exact runEach_of_succeeds hp

end Session

end Roster
