import Roster.Proofs.Shell.Batch
import Roster.Proofs.Shell.Console

/-!
# `Roster.Proofs.Shell.Reports`: which prints are reported

A console, a batch and a check collect what the prints of a script answer, and each of them shows
it when the script has run through. `reports_of_prints` says that every print is then reported, and
where: between the reports of the prints before it and of those behind it. It also says what is
shown of a script that a statement ends: the message of this failure and none of the reports,
though the prints before it have been answered. `reports_lost_behind_print` is such a script.
-/

set_option autoImplicit false

namespace Roster

namespace Session

variable {source : TableSource} {settings : Settings} {s : Session} {p before after : Program}

/-- A program that no statement fails succeeds. -/
theorem exists_succeeds_of_failure_eq_none (h : (s.run source settings p).failure = none) :
    ∃ outcomes s', Succeeds source settings s p outcomes s' := by
  rcases exists_split source settings s p with hp |
    ⟨before, failing, after, outcomes, s', cause, rfl, hbefore, hfails⟩
  · exact hp
  · rw [run, runFrom_of_fails hbefore hfails] at h
    cases h

/-- The answer of a print stands between those of the prints before and behind it. -/
theorem exists_answer_of_print
    (h : (s.run source settings (before ++ .print :: after)).failure = none) :
    ∃ outcomes s₁ s₂ answer later, Succeeds source settings s before outcomes s₁ ∧
      s₁.step source settings .print = (.ok (some answer), s₂) ∧
      (s.run source settings (before ++ .print :: after)).answers
        = outcomes.reduceOption ++ answer :: later := by
  obtain ⟨all, s', hall⟩ := exists_succeeds_of_failure_eq_none h
  obtain ⟨outcomes, rest, s₁, hbefore, hrest, rfl⟩ := hall.exists_of_append
  cases hrest with
  | @cons _ s₂ _ _ _ outcome later hprint hafter =>
    obtain ⟨answer, rfl⟩ := Option.isSome_iff_exists.1 ((isSome_of_step hprint).2 rfl)
    refine ⟨outcomes, s₁, s₂, answer, later.reduceOption, hbefore, hprint, ?_⟩
    rw [run, runFrom_of_succeeds hall, List.reduceOption_append, List.reduceOption_cons_of_some]

end Session

namespace Shell

variable {f : Files} {source : TableSource} {settings : Settings} {preview : Nat} {s : Session}
  {directory name script : String} {names : List String} {p : Program}
  {outcome : String → Except CommandError (List Answer)} {summary : BatchSummary}

/-- The report of the first answer stands first. -/
theorem reports_cons (title : String) (preview : Nat) (answer : Answer) (answers : List Answer) :
    reports title preview (answer :: answers)
      = Report.render answer title preview ++ reports title preview answers := by
  rw [reports, List.map_cons, String.join_cons]
  rfl

/-- The section of a script stands in what its batch shows between those of the scripts before it
and behind it. -/
theorem IsBatch.exists_sections
    (h : IsBatch f source settings preview directory names outcome summary) (hmem : name ∈ names) :
    ∃ lower upper, names = lower ++ name :: upper ∧
      summary.output = sectionsText preview directory outcome lower
        ++ sectionText preview (joinPath directory name) (outcome name)
        ++ sectionsText preview directory outcome upper
        ++ summaryLine summary.succeeded summary.total := by
  obtain ⟨lower, upper, rfl⟩ := List.append_of_mem hmem
  have hsection : sectionsText preview directory outcome (name :: upper)
      = sectionText preview (joinPath directory name) (outcome name)
        ++ sectionsText preview directory outcome upper := by
    rw [sectionsText, List.map_cons, String.join_cons]
    rfl
  refine ⟨lower, upper, rfl, ?_⟩
  rw [h.output, sectionsText_append, hsection]
  simp only [String.append_assoc]

/-- What comes of the script of a file, when the script can be read. -/
theorem IsBatch.outcome_eq (h : IsBatch f source settings preview directory names outcome summary)
    (hmem : name ∈ names) (hread : f.readText (joinPath directory name) = .ok script)
    (hparse : Program.parse script = .ok p) :
    outcome name = (Session.empty.run source settings p).outcome.mapError .execution := by
  rw [← alone_eq_iff.2 (h.alone name hmem), alone_of_readText hread, answersIn_of_parse hparse]

/-- The rule of a report has fifty characters. -/
theorem length_rule : Report.rule.length = 50 :=
  String.length_ofList.trans List.length_replicate

/-- The lines that frame a report are in it. -/
theorem le_length_render (a : Answer) (title : String) (preview : Nat) :
    3 * 50 ≤ (Report.render a title preview).length := by
  have hrule := length_rule
  unfold Report.render
  generalize Report.rule = rule at hrule ⊢
  simp only [String.length_append, toString, hrule]
  omega

/-- A short text has no report in it. -/
theorem ne_append_render {text : String} (h : text.length < 3 * 50) (a : Answer) (title : String)
    (preview : Nat) (above below : String) :
    text ≠ above ++ Report.render a title preview ++ below := by
  have hreport := le_length_render a title preview
  generalize Report.render a title preview = report at hreport
  rintro rfl
  rw [String.length_append, String.length_append] at h
  omega

/-- What is shown of a script: the reply of a console that runs it, what a check of it gives, and
its section of a batch, which runs it in a fresh session. -/
structure ShownAs (source : TableSource) (settings : Settings) (preview : Nat) (s : Session)
    (script : String) (reply : Reply) (result : Except CommandError (List Answer))
    (part : String → String) : Prop where
  console : ∀ buffer line, Console.isExit line = false → Console.isTrigger line = true →
    buffer ++ line ++ "\n" = script →
    (Console.feed source settings preview ⟨s, buffer⟩ line).1 = reply
  check : (answersIn source settings s script).1 = result
  batch : s = .empty → ∀ f directory names outcome summary name,
    IsBatch f source settings preview directory names outcome summary → name ∈ names →
    f.readText (joinPath directory name) = .ok script →
    ∃ lower upper, names = lower ++ name :: upper ∧
      summary.output = sectionsText preview directory outcome lower
        ++ part (joinPath directory name) ++ sectionsText preview directory outcome upper
        ++ summaryLine summary.succeeded summary.total

/-- All three show the answers of a run, or its failure. The console and the batch put the same
reports into different texts, and the check gives the answers themselves. -/
theorem shownAs_of_parse (source : TableSource) (settings : Settings) (preview : Nat)
    (s : Session) (hparse : Program.parse script = .ok p) :
    let run := s.run source settings p
    ShownAs source settings preview s script
      (run.failure.elim (.output (reports Console.title preview run.answers))
        fun e => .error s!"Error: {e.message}")
      (run.outcome.mapError .execution)
      fun path => sectionText preview path (run.outcome.mapError .execution) := by
  intro run
  refine ⟨?_, ?_, ?_⟩
  · rintro buffer line hexit htrigger rfl
    rw [Console.feed_of_trigger hexit htrigger, Console.runScript, hparse]
    dsimp only
    cases run.failure <;> rfl
  · rw [answersIn_of_parse hparse]
  · rintro rfl f directory names outcome summary name hbatch hmem hread
    rw [← hbatch.outcome_eq hmem hread hparse]
    exact hbatch.exists_sections hmem

/-- The print behind some statements of a script is answered, and its report stands between those of
the prints before it and of those behind it. A check gets its answer at the same place. -/
def PrintShown (source : TableSource) (settings : Settings) (preview : Nat) (s : Session)
    (script : String) (before : Program) : Prop :=
  ∃ outcomes s₁ s₂ answer later, Session.Succeeds source settings s before outcomes s₁ ∧
    s₁.step source settings .print = (.ok (some answer), s₂) ∧
    let earlier := outcomes.reduceOption
    let shown := fun title => reports title preview earlier
      ++ Report.render answer title preview ++ reports title preview later
    ShownAs source settings preview s script (.output (shown Console.title))
      (.ok (earlier ++ answer :: later)) shown

/-- Which prints of a script are reported.

- If no statement of the script fails, every print is answered and shown in its place.
- If a statement fails, only the message of this failure is shown, whatever has been answered
  before. -/
theorem reports_of_prints (source : TableSource) (settings : Settings) (preview : Nat)
    (s : Session) (script : String) (p : Program) (hparse : Program.parse script = .ok p) :
    ((s.run source settings p).failure = none → ∀ before after, p = before ++ .print :: after →
      PrintShown source settings preview s script before) ∧
    (∀ e, (s.run source settings p).failure = some e →
      ShownAs source settings preview s script (.error s!"Error: {e.message}")
        (.error (.execution e)) fun path => failureLine path (.execution e)) := by
  have hall := shownAs_of_parse source settings preview s hparse
  refine ⟨?_, ?_⟩
  · rintro hfailure before after rfl
    obtain ⟨outcomes, s₁, s₂, answer, later, hbefore, hprint, hanswers⟩ :=
      Session.exists_answer_of_print hfailure
    refine ⟨outcomes, s₁, s₂, answer, later, hbefore, hprint, ?_⟩
    simpa only [Run.outcome, hfailure, hanswers, Option.elim_none, Except.mapError, sectionText,
      reports_append, reports_cons, String.append_assoc] using hall
  · intro e hfailure
    simpa only [Run.outcome, hfailure, Option.elim_some, Except.mapError, sectionText] using hall

/-- Two prints of a loaded table. -/
theorem reports_of_two_prints :
    let t : Table := {
      columns := [⟨"name", .texts #[some "Ada"]⟩]
      rowCount := 1
      size_eq := List.forall_mem_singleton.2 rfl
      nodup := List.pairwise_singleton _ _
      rowCount_eq_zero := fun h => absurd h (List.cons_ne_nil _ _) }
    let source : TableSource := fun path => .error (.notFound path)
    let s : Session := { table := some t }
    Program.parse "print; print;\n" = .ok [.print, .print] ∧
    (s.run source {} [.print, .print]).failure = none ∧
    PrintShown source {} 5 s "print; print;\n" [] ∧
    PrintShown source {} 5 s "print; print;\n" [.print] := by
  intro t source s
  have hparse : Program.parse "print; print;\n" = .ok [.print, .print] := by
    have hlexes : Lexes "print; print;\n".toList .start
        [⟨.keyword .print, "print", ⟨1, 1⟩⟩, ⟨.semicolon, ";", ⟨1, 6⟩⟩,
          ⟨.keyword .print, "print", ⟨1, 8⟩⟩, ⟨.semicolon, ";", ⟨1, 13⟩⟩] ⟨2, 1⟩ := by
      iterate 4 refine .token rfl rfl ?_
      exact .atEnd rfl
    exact parse_of_statements hlexes.ofChars_eq (List.cons_ne_nil .print [.print]) rfl
  have hfailure : (s.run source {} [.print, .print]).failure = none := rfl
  have hshown := (reports_of_prints source {} 5 s _ _ hparse).1 hfailure
  exact ⟨hparse, hfailure, hshown [] [.print] rfl, hshown [.print] [] rfl⟩

/-- A print between two loads, the second of which fails. The print is answered, but its report is
in none of the texts that are shown. -/
theorem reports_lost_behind_print :
    let t : Table := {
      columns := [⟨"name", .texts #[some "Ada"]⟩]
      rowCount := 1
      size_eq := List.forall_mem_singleton.2 rfl
      nodup := List.pairwise_singleton _ _
      rowCount_eq_zero := fun h => absurd h (List.cons_ne_nil _ _) }
    let source : TableSource := fun path =>
      if path = "people" then .ok t else .error (.notFound path)
    let script := "load \"people\";\nprint; load \"x\";\n"
    let path := "scripts/people.dsl"
    let loaded : Session := { table := some t }
    let a : Answer :=
      { columns := ["name"], rowCount := 1, rows := [[.text "Ada"]], aggregates := [] }
    let e : StatementError := ⟨2, .load, .load "x" (.notFound "x")⟩
    Program.parse script = .ok [.load "people", .print, .load "x"] ∧
    Session.Succeeds source {} .empty [.load "people"] [none] loaded ∧
    loaded.step source {} .print = (.ok (some a), loaded) ∧
    ((Console.feed source {} 5 ⟨.empty, "load \"people\";\n"⟩ "print; load \"x\";").1
        = .error s!"Error: {e.message}" ∧
      ∀ above below, s!"Error: {e.message}" ≠ above ++ Report.render a Console.title 5 ++ below) ∧
    (answersIn source {} .empty script).1 = .error (.execution e) ∧
    (sectionText 5 path (answersIn source {} .empty script).1 = failureLine path (.execution e) ∧
      ∀ above below,
        failureLine path (.execution e) ≠ above ++ Report.render a path 5 ++ below) := by
  intro t source script path loaded a e
  have hpeople : source "people" = .ok t := if_pos rfl
  have hx : source "x" = .error (.notFound "x") := if_neg (by decide)
  have hparse : Program.parse script = .ok [.load "people", .print, .load "x"] := by
    have hlexes : Lexes "load \"people\";\nprint; load \"x\";\n".toList .start
        [⟨.keyword .load, "load", ⟨1, 1⟩⟩, ⟨.string "people", "\"people\"", ⟨1, 6⟩⟩,
          ⟨.semicolon, ";", ⟨1, 14⟩⟩, ⟨.keyword .print, "print", ⟨2, 1⟩⟩,
          ⟨.semicolon, ";", ⟨2, 6⟩⟩, ⟨.keyword .load, "load", ⟨2, 8⟩⟩,
          ⟨.string "x", "\"x\"", ⟨2, 13⟩⟩, ⟨.semicolon, ";", ⟨2, 16⟩⟩] ⟨3, 1⟩ := by
      iterate 8 refine .token rfl rfl ?_
      exact .atEnd rfl
    exact parse_of_statements hlexes.ofChars_eq
      (List.cons_ne_nil (.load "people") [.print, .load "x"]) rfl
  have hloads : Session.Succeeds source {} .empty [.load "people"] [none] loaded := by
    refine .cons ?_ (.nil _)
    rw [Session.step_load, hpeople]
    rfl
  have hprints : loaded.step source {} .print = (.ok (some a), loaded) := rfl
  have hfails : loaded.step source {} (.load "x")
      = (.error (.load "x" (.notFound "x")), loaded) := by
    rw [Session.step_load, hx]
  -- The load and the print succeed before the statement that fails.
  have hfailure : (Session.empty.run source {} [.load "people", .print, .load "x"]).failure
      = some e :=
    congrArg Run.failure
      (Session.runFrom_of_fails (hloads.append (.cons hprints (.nil _))) hfails 0 [])
  -- Both statements of the last line are run, and what is shown is the failure alone.
  have hlines : Console.isExit "print; load \"x\";" = false ∧
      Console.isTrigger "print; load \"x\";" = true := by decide +kernel
  have hshown : ShownAs source {} 5 .empty script _ _ _ :=
    shownAs_of_parse source {} 5 .empty hparse
  rw [Run.outcome, hfailure] at hshown
  refine ⟨hparse, hloads, hprints, ⟨?_, ?_⟩, hshown.check, ⟨?_, ?_⟩⟩
  · exact hshown.console _ _ hlines.1 hlines.2 (by decide)
  · exact ne_append_render (by decide +kernel) a _ 5
  · rw [hshown.check]
    rfl
  · exact ne_append_render (by decide +kernel) a _ 5

end Shell

end Roster
