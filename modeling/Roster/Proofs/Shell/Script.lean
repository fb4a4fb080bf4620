import Roster.Proofs.Session.Stopping
import Roster.Shell.Script

/-!
# `Roster.Proofs.Shell.Script`: what comes of a script

A script that cannot be read leaves its session as it is. One that can be read runs up to its first
statement that fails, and it gives the answers of its prints only if there is none. `ScriptRuns`
says so without the loop of a run, and `answersIn_eq_iff` that this is what the commands do.

A script asks its source only for the paths of its loads, so two sources that give the same for
these cannot be told apart (`answersIn_congr`).
-/

set_option autoImplicit false

namespace Roster

namespace Session

variable {source source' : TableSource} {settings : Settings} {s : Session}

/-- A source is only asked for the paths of loads. -/
theorem step_congr {statement : Statement}
    (h : ∀ path, statement = .load path → source path = source' path) :
    s.step source settings statement = s.step source' settings statement := by
  cases statement with
  | load path => rw [step_load, step_load, h path rfl]
  | filter clause => rfl
  | aggregate function column => rfl
  | sort column direction => rfl
  | print => rfl

/-- A run asks the source for the paths of its loads and for nothing else. The induction is on the
statements, and the states of both runs are the same all along. -/
theorem runFrom_congr {p : Program} (h : ∀ path, .load path ∈ p → source path = source' path)
    (i : Nat) : s.runFrom source settings i p = s.runFrom source' settings i p := by
  induction p generalizing s i with
  | nil => rfl
  | cons statement rest ih =>
    have hstep : s.step source settings statement = s.step source' settings statement :=
      step_congr fun path hload => h path (hload ▸ List.mem_cons_self)
    have hrest : ∀ path, .load path ∈ rest → source path = source' path :=
      fun path hmem => h path (List.mem_cons_of_mem _ hmem)
    rw [runFrom, runFrom, hstep]
    split
    · rfl
    · rw [ih hrest]

end Session

/-- The paths of a script are those of its loads. -/
theorem Program.mem_loadPaths_iff {p : Program} {path : String} :
    path ∈ p.loadPaths ↔ .load path ∈ p := by
  rw [loadPaths, List.mem_filterMap]
  constructor
  · rintro ⟨statement, hmem, hpath⟩
    cases statement <;> cases hpath
    exact hmem
  · intro h
    exact ⟨_, h, rfl⟩

namespace Shell

variable {source source' : TableSource} {settings : Settings} {s s' : Session} {script : String}
  {result : Except CommandError (List Answer)}

/-- What comes of a script in a session, and the session that it leaves. -/
inductive ScriptRuns (source : TableSource) (settings : Settings) (s : Session) (script : String) :
    Except CommandError (List Answer) → Session → Prop
  /-- The script cannot be read. -/
  | unread {cause : ParseError} :
      Program.parse script = .error cause →
      ScriptRuns source settings s script (.error (.parse cause)) s
  /-- A statement fails after those before it have succeeded. -/
  | stopped {before after : Program} {failing : Statement} {outcomes : List (Option Answer)}
      {s' : Session} {cause : QueryError} :
      Program.parse script = .ok (before ++ failing :: after) →
      Session.Succeeds source settings s before outcomes s' →
      s'.step source settings failing = (.error cause, s') →
      ScriptRuns source settings s script
        (.error (.execution ⟨before.length, failing.keyword, cause⟩)) s'
  /-- All statements succeed, and the answers are those of the prints. -/
  | through {p : Program} {outcomes : List (Option Answer)} {s' : Session} :
      Program.parse script = .ok p →
      Session.Succeeds source settings s p outcomes s' →
      ScriptRuns source settings s script (.ok outcomes.reduceOption) s'

/-- A text that is a script is run. -/
theorem answersIn_of_parse {p : Program} (h : Program.parse script = .ok p) :
    answersIn source settings s script =
      let run := s.run source settings p
      (run.outcome.mapError .execution, run.session) := by
  rw [answersIn, parse, h]

/-- A text that is no script leaves the session as it is. -/
theorem answersIn_of_unread {cause : ParseError} (h : Program.parse script = .error cause) :
    answersIn source settings s script = (.error (.parse cause), s) := by
  rw [answersIn, parse, h]

/-- Some of this comes of every script. -/
theorem scriptRuns_answersIn (source : TableSource) (settings : Settings) (s : Session)
    (script : String) :
    ScriptRuns source settings s script (answersIn source settings s script).1
      (answersIn source settings s script).2 := by
  cases hparse : Program.parse script with
  | error cause =>
    rw [answersIn_of_unread hparse]
    exact .unread hparse
  | ok p =>
    rw [answersIn_of_parse hparse, Session.run]
    rcases Session.exists_split source settings s p with ⟨outcomes, s', hp⟩ |
      ⟨before, failing, after, outcomes, s', cause, rfl, hbefore, hfails⟩
    · rw [Session.runFrom_of_succeeds hp]
      exact .through hparse hp
    · rw [Session.runFrom_of_fails hbefore hfails, Nat.zero_add]
      exact .stopped hparse hbefore hfails

/-- Nothing else can come of a text than what does. -/
theorem ScriptRuns.eq_answersIn (h : ScriptRuns source settings s script result s') :
    answersIn source settings s script = (result, s') := by
  cases h with
  | unread hparse => exact answersIn_of_unread hparse
  | stopped hparse hbefore hfails =>
    rw [answersIn_of_parse hparse, Session.run, Session.runFrom_of_fails hbefore hfails,
      Nat.zero_add]
    rfl
  | through hparse hp =>
    rw [answersIn_of_parse hparse, Session.run, Session.runFrom_of_succeeds hp]
    rfl

/-- What comes of a script is what a command gets of it. -/
theorem answersIn_eq_iff :
    answersIn source settings s script = (result, s') ↔
      ScriptRuns source settings s script result s' := by
  constructor
  · intro h
    have hruns := scriptRuns_answersIn source settings s script
    rw [h] at hruns
    exact hruns
  · exact ScriptRuns.eq_answersIn

/-- The same comes of a script with two sources that give the same for the paths of its loads. -/
theorem answersIn_congr
    (h : ∀ p, Program.parse script = .ok p → ∀ path ∈ p.loadPaths, source path = source' path) :
    answersIn source settings s script = answersIn source' settings s script := by
  cases hparse : Program.parse script with
  | error cause => rw [answersIn_of_unread hparse, answersIn_of_unread hparse]
  | ok p =>
    have hrun : s.run source settings p = s.run source' settings p :=
      Session.runFrom_congr (fun path hmem =>
        h p hparse path (Program.mem_loadPaths_iff.2 hmem)) 0
    rw [answersIn_of_parse hparse, answersIn_of_parse hparse, hrun]

end Shell

end Roster
