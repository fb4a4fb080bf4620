import Roster.Session.Run

/-!
# `Roster.Proofs.Session.Runs`: a program is run in parts

A program that runs through can be followed by another one: `run_append` says that the two make
one run, with the answers of both and the session that the second one leaves. The place that a
run counts from is only needed for the place of a statement that fails
(`runFrom_eq_of_failure_eq_none`), so the second program counts from zero again.

Both inductions go over the statements of the first program. `runFrom_cons` takes the first of
them off a run, and `exists_step_of_failure_eq_none` says that it succeeds in a run that no
statement fails.
-/

set_option autoImplicit false

namespace Roster

namespace Session

variable {source : TableSource} {settings : Settings} {s s' : Session} {i : Nat}
  {statement : Statement} {answer : Option Answer} {p q rest : Program}

/-- A statement that succeeds gives its answer to the run, and the others run in the session
that it leaves. -/
theorem runFrom_cons (h : s.step source settings statement = (.ok answer, s')) :
    s.runFrom source settings i (statement :: rest) =
      let r := s'.runFrom source settings (i + 1) rest
      { r with answers := answer.toList ++ r.answers } := by
  rw [runFrom, h]

/-- The first statement of a run that no statement fails succeeds, and none of the others
fails. -/
theorem exists_step_of_failure_eq_none
    (h : (s.runFrom source settings i (statement :: rest)).failure = none) :
    ∃ answer s', s.step source settings statement = (.ok answer, s') ∧
      (s'.runFrom source settings (i + 1) rest).failure = none := by
  rw [runFrom] at h
  split at h
  · cases h
  · exact ⟨_, _, by assumption, h⟩

/-- A run that no statement fails does not depend on the place it counts from. -/
theorem runFrom_eq_of_failure_eq_none
    (h : (s.runFrom source settings i p).failure = none) (j : Nat) :
    s.runFrom source settings j p = s.runFrom source settings i p := by
  induction p generalizing s i j with
  | nil => rfl
  | cons statement rest ih =>
    obtain ⟨answer, s', hstep, hrest⟩ := exists_step_of_failure_eq_none h
    rw [runFrom_cons hstep, runFrom_cons hstep, ih hrest (j + 1)]

/-- What runs after a program that no statement fails goes on from its session, and its
statements count on. -/
theorem runFrom_append (h : (s.runFrom source settings i p).failure = none) :
    s.runFrom source settings i (p ++ q) =
      let r := s.runFrom source settings i p
      let r' := r.session.runFrom source settings (i + p.length) q
      { r' with answers := r.answers ++ r'.answers } := by
  induction p generalizing s i with
  | nil => rfl
  | cons statement rest ih =>
    obtain ⟨answer, s', hstep, hrest⟩ := exists_step_of_failure_eq_none h
    have hplace : i + 1 + rest.length = i + (statement :: rest).length := by
      rw [List.length_cons]
      omega
    rw [List.cons_append, runFrom_cons hstep, runFrom_cons hstep, ih hrest, hplace]
    simp only [List.append_assoc]

/-- Two programs that no statement fails, the second one in the session of the first, make one
run. -/
theorem run_append (hp : (s.run source settings p).failure = none)
    (hq : ((s.run source settings p).session.run source settings q).failure = none) :
    s.run source settings (p ++ q) =
      let r := s.run source settings p
      let r' := r.session.run source settings q
      { r' with answers := r.answers ++ r'.answers } := by
  -- In a run of both programs the second one does not count from zero.
  have hplace : (s.run source settings p).session.runFrom source settings (0 + p.length) q
      = (s.run source settings p).session.run source settings q :=
    runFrom_eq_of_failure_eq_none hq (0 + p.length)
  unfold run at hplace ⊢
  rw [runFrom_append hp]
  dsimp only
  rw [hplace]

end Session

end Roster
