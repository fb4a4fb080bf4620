import Roster.Proofs.Script.Concatenation
import Roster.Proofs.Session.Runs
import Roster.Shell.Console

/-!
# `Roster.Proofs.Shell.Console`: a conversation is one run

A console reads and runs its lines in parts, one script for each line that runs what has been
kept. `feedAll_eq_run` says that this makes no difference as long as nothing fails: all lines
together are one script, which can be read and run in the session that the console started with,
and the answers and the session are the same.

`runScript_cases` says what comes of a single script. That the scripts can be joined rests on
two facts. Scripts that can be read can be read on lines of their own, one after the other
(`parse_append`), so the line feed that the console adds to its last line does not count
(`parse_of_lineFeed`). And programs that run through make one run (`Session.run_append`). The
induction is on the lines, for any text that has been kept before them.
-/

set_option autoImplicit false

namespace Roster.Shell

/-- The reports of answers put together are the reports of the one and of the other. -/
theorem reports_append (title : String) (preview : Nat) (xs ys : List Answer) :
    reports title preview (xs ++ ys) = reports title preview xs ++ reports title preview ys := by
  rw [reports, List.map_append, String.join_append]
  rfl

namespace Reply

/-- The reports in a reply, if it has any. -/
def output? : Reply → Option String
  | output text => some text
  | kept | error _ | left => none

/-- Whether a reply says that a script has failed. -/
def isError : Reply → Bool
  | error _ => true
  | kept | output _ | left => false

/-- All reports in some replies, one after the other. -/
def outputs (replies : List Reply) : String := String.join (replies.filterMap output?)

/-- A line that is kept puts nothing out. -/
theorem outputs_kept (replies : List Reply) : outputs (kept :: replies) = outputs replies := rfl

/-- What is put out first stands first. -/
theorem outputs_output (text : String) (replies : List Reply) :
    outputs (output text :: replies) = text ++ outputs replies := by
  show String.join (text :: replies.filterMap output?) = text ++ outputs replies
  rw [String.join_cons, outputs]

end Reply

namespace Console

variable {source : TableSource} {settings : Settings} {preview : Nat} {s : Session}
  {buffer line : String}

/-- Takes lines one after the other: the replies, and the console after the last line. -/
def feedAll (source : TableSource) (settings : Settings) (preview : Nat) (c : Console) :
    List String → List Reply × Console
  | [] => ([], c)
  | line :: rest =>
    let (reply, c) := feed source settings preview c line
    let (replies, c) := feedAll source settings preview c rest
    (reply :: replies, c)

/-- The first line is taken by itself, and the others by the console after it. -/
theorem feedAll_cons (c : Console) (line : String) (rest : List String) :
    feedAll source settings preview c (line :: rest) =
      let (reply, c) := feed source settings preview c line
      (reply :: (feedAll source settings preview c rest).1,
        (feedAll source settings preview c rest).2) := rfl

/-- The first lines are taken by themselves, and the others by the console after them. -/
theorem feedAll_append (c : Console) (xs ys : List String) :
    feedAll source settings preview c (xs ++ ys) =
      let r := feedAll source settings preview c xs
      (r.1 ++ (feedAll source settings preview r.2 ys).1,
        (feedAll source settings preview r.2 ys).2) := by
  induction xs generalizing c with
  | nil => rfl
  | cons line rest ih =>
    rw [List.cons_append, feedAll_cons, feedAll_cons]
    dsimp only
    rw [ih]
    rfl

/-- Lines as one text, in which each of them ends with a line feed. -/
def textOf (lines : List String) : String := String.join (lines.map (· ++ "\n"))

/-- The first line can be counted to the text before the lines. -/
theorem append_textOf_cons (text line : String) (rest : List String) :
    text ++ textOf (line :: rest) = text ++ line ++ "\n" ++ textOf rest := by
  have hcons : textOf (line :: rest) = line ++ "\n" ++ textOf rest := String.join_cons
  rw [hcons, String.append_assoc, String.append_assoc, String.append_assoc]

/-- The text of lines is put together from that of their parts. -/
theorem textOf_append (xs ys : List String) : textOf (xs ++ ys) = textOf xs ++ textOf ys := by
  rw [textOf, List.map_append, String.join_append]
  rfl

/-! ### One line -/

/-- A line that leaves the console changes nothing. -/
theorem feed_of_exit {c : Console} (hexit : isExit line = true) :
    feed source settings preview c line = (.left, c) := by
  simp [feed, hexit]

/-- A script that can be read and runs through gives the reports of its answers. -/
theorem runScript_of_parse {script : String} {p : Program}
    (hparse : Program.parse script = .ok p) (hfailure : (s.run source settings p).failure = none) :
    runScript source settings preview s script =
      (.output (reports title preview (s.run source settings p).answers),
        (s.run source settings p).session) := by
  rw [runScript, hparse]
  dsimp only
  rw [hfailure]

/-- A script fails, or it can be read and runs through. -/
theorem runScript_cases (source : TableSource) (settings : Settings) (preview : Nat)
    (s : Session) (script : String) :
    (runScript source settings preview s script).1.isError = true ∨
    ∃ p, Program.parse script = .ok p ∧ (s.run source settings p).failure = none := by
  unfold runScript
  cases hparse : Program.parse script with
  | error e => exact .inl rfl
  | ok p =>
    dsimp only
    cases hfailure : (s.run source settings p).failure with
    | some e => exact .inl rfl
    | none => exact .inr ⟨p, rfl, hfailure⟩

/-- A line that does not run what has been kept is kept too. -/
theorem feed_of_not_trigger (hexit : isExit line = false) (htrigger : isTrigger line = false) :
    feed source settings preview ⟨s, buffer⟩ line = (.kept, ⟨s, buffer ++ line ++ "\n"⟩) := by
  simp [feed, hexit, htrigger]

/-- A line that runs what has been kept gives what comes of that script, and nothing of it is
kept. -/
theorem feed_of_trigger (hexit : isExit line = false) (htrigger : isTrigger line = true) :
    feed source settings preview ⟨s, buffer⟩ line =
      let r := runScript source settings preview s (buffer ++ line ++ "\n")
      (r.1, ⟨r.2, ""⟩) := by
  simp [feed, hexit, htrigger]

/-- A line that runs what has been kept gives the reports, if the script can be read and runs
through. -/
theorem feed_of_parse {p : Program} (hexit : isExit line = false)
    (htrigger : isTrigger line = true) (hparse : Program.parse (buffer ++ line ++ "\n") = .ok p)
    (hfailure : (s.run source settings p).failure = none) :
    feed source settings preview ⟨s, buffer⟩ line =
      (.output (reports title preview (s.run source settings p).answers),
        ⟨(s.run source settings p).session, ""⟩) := by
  rw [feed_of_trigger hexit htrigger, runScript_of_parse hparse hfailure]

/-- A line that runs what has been kept either fails, or the script can be read and runs
through. -/
theorem exists_run_of_feed (hexit : isExit line = false) (htrigger : isTrigger line = true)
    (hsuccess : (feed source settings preview ⟨s, buffer⟩ line).1.isError = false) :
    ∃ p, Program.parse (buffer ++ line ++ "\n") = .ok p ∧
      (s.run source settings p).failure = none := by
  rw [feed_of_trigger hexit htrigger] at hsuccess
  rcases runScript_cases source settings preview s (buffer ++ line ++ "\n") with herror | hrun
  · rw [herror] at hsuccess
    cases hsuccess
  · exact hrun

/-! ### All lines -/

/-- The script that lines make with some text kept before them is run by the console as a
whole: it can be read, runs through, and gives the replies and the session. -/
def RunsAs (source : TableSource) (settings : Settings) (preview : Nat) (c : Console)
    (lines : List String) : Prop :=
  ∃ p, Program.parse (c.buffer ++ textOf lines) = .ok p ∧
    (c.session.run source settings p).failure = none ∧
    Reply.outputs (feedAll source settings preview c lines).1
      = reports title preview (c.session.run source settings p).answers ∧
    (feedAll source settings preview c lines).2 = ⟨(c.session.run source settings p).session, ""⟩

/-- A line that is kept moves to the text before the other lines. -/
theorem RunsAs.cons_kept {rest : List String}
    (hfeed : feed source settings preview ⟨s, buffer⟩ line
      = (.kept, ⟨s, buffer ++ line ++ "\n"⟩))
    (h : RunsAs source settings preview ⟨s, buffer ++ line ++ "\n"⟩ rest) :
    RunsAs source settings preview ⟨s, buffer⟩ (line :: rest) := by
  obtain ⟨p, hparse, hfailure, houtputs, hconsole⟩ := h
  refine ⟨p, ?_, hfailure, ?_, ?_⟩
  · show Program.parse (buffer ++ textOf (line :: rest)) = .ok p
    rw [append_textOf_cons]
    exact hparse
  · rw [feedAll_cons, hfeed]
    show Reply.outputs (.kept :: _) = _
    rw [Reply.outputs_kept]
    exact houtputs
  · rw [feedAll_cons, hfeed]
    exact hconsole

/-- A line that runs the text before it, and the other lines in the session that it leaves. The two
scripts are one with a line feed between them, so their programs follow one another, and so do their
runs. -/
theorem RunsAs.cons_output {rest : List String} {p : Program}
    (hexit : isExit line = false) (htrigger : isTrigger line = true)
    (hparse : Program.parse (buffer ++ line ++ "\n") = .ok p)
    (hfailure : (s.run source settings p).failure = none)
    (h : RunsAs source settings preview ⟨(s.run source settings p).session, ""⟩ rest) :
    RunsAs source settings preview ⟨s, buffer⟩ (line :: rest) := by
  obtain ⟨q, hparse', hfailure', houtputs, hconsole⟩ := h
  have hrun := Session.run_append hfailure hfailure'
  have hfeed : feed source settings preview ⟨s, buffer⟩ line = _ :=
    feed_of_parse hexit htrigger hparse hfailure
  rw [String.empty_append] at hparse'
  refine ⟨p ++ q, ?_, ?_, ?_, ?_⟩
  · show Program.parse (buffer ++ textOf (line :: rest)) = .ok (p ++ q)
    rw [append_textOf_cons]
    -- The line feed behind the first script is the one that joins it to the second.
    exact parse_append (parse_of_lineFeed hparse) hparse'
  · show (s.run source settings (p ++ q)).failure = none
    rw [hrun]
    exact hfailure'
  · show _ = reports title preview (s.run source settings (p ++ q)).answers
    rw [feedAll_cons, hfeed]
    show Reply.outputs (.output _ :: _) = _
    rw [Reply.outputs_output, houtputs, hrun, ← reports_append]
  · show _ = Console.mk (s.run source settings (p ++ q)).session ""
    rw [feedAll_cons, hfeed, hrun]
    exact hconsole

/-- What `feedAll_eq_run` says, for a console that has kept some text. The induction is on the lines
before the last one: each is kept, or runs what has been kept and starts anew. -/
theorem runsAs_of_feedAll {lines : List String} {last : String}
    (htrigger : isTrigger last = true) (hexit : ∀ line ∈ lines ++ [last], isExit line = false)
    (hsuccess : ∀ reply ∈ (feedAll source settings preview ⟨s, buffer⟩ (lines ++ [last])).1,
      reply.isError = false) :
    RunsAs source settings preview ⟨s, buffer⟩ (lines ++ [last]) := by
  induction lines generalizing s buffer with
  | nil =>
    -- The last line runs all that has been kept, and no other script follows.
    rw [List.nil_append, feedAll_cons] at hsuccess
    have hline : isExit last = false := hexit last List.mem_cons_self
    obtain ⟨p, hparse, hfailure⟩ :=
      exists_run_of_feed hline htrigger (hsuccess _ List.mem_cons_self)
    have hfeed : feed source settings preview ⟨s, buffer⟩ last = _ :=
      feed_of_parse hline htrigger hparse hfailure
    refine ⟨p, ?_, hfailure, ?_, ?_⟩
    · show Program.parse (buffer ++ textOf [last]) = .ok p
      rw [append_textOf_cons]
      show Program.parse (buffer ++ last ++ "\n" ++ "") = .ok p
      rw [String.append_empty]
      exact hparse
    · rw [List.nil_append, feedAll_cons, hfeed]
      exact (Reply.outputs_output _ []).trans (String.append_empty)
    · rw [List.nil_append, feedAll_cons, hfeed]
      rfl
  | cons line rest ih =>
    have hline : isExit line = false := hexit line List.mem_cons_self
    have hrest : ∀ line ∈ rest ++ [last], isExit line = false :=
      fun line hmem => hexit line (List.mem_cons_of_mem _ hmem)
    rw [List.cons_append, feedAll_cons] at hsuccess
    rw [List.cons_append]
    cases hkind : isTrigger line with
    | false =>
      have hfeed : feed source settings preview ⟨s, buffer⟩ line
          = (.kept, ⟨s, buffer ++ line ++ "\n"⟩) := feed_of_not_trigger hline hkind
      rw [hfeed] at hsuccess
      exact .cons_kept hfeed (ih hrest fun reply hmem => hsuccess reply (.tail _ hmem))
    | true =>
      obtain ⟨p, hparse, hfailure⟩ :=
        exists_run_of_feed hline hkind (hsuccess _ List.mem_cons_self)
      rw [feed_of_parse hline hkind hparse hfailure] at hsuccess
      exact .cons_output hline hkind hparse hfailure
        (ih hrest fun reply hmem => hsuccess reply (.tail _ hmem))

/-- A conversation in which nothing fails is one run. Take lines of which none leaves the
console and the last runs what has been kept, so that no reply is an error. Then all of them
are a script that can be read, and its program runs through in the session of the console. The
reports in the replies are those of its answers, and the console has its session in the end. -/
theorem feedAll_eq_run (source : TableSource) (settings : Settings) (preview : Nat) (s : Session)
    (lines : List String) (last : String) (htrigger : isTrigger last = true)
    (hexit : ∀ line ∈ lines ++ [last], isExit line = false)
    (hsuccess : ∀ reply ∈ (feedAll source settings preview ⟨s, ""⟩ (lines ++ [last])).1,
      reply.isError = false) :
    ∃ p, Program.parse (textOf (lines ++ [last])) = .ok p ∧
      let run := s.run source settings p
      run.failure = none ∧
      Reply.outputs (feedAll source settings preview ⟨s, ""⟩ (lines ++ [last])).1
        = reports title preview run.answers ∧
      (feedAll source settings preview ⟨s, ""⟩ (lines ++ [last])).2 = ⟨run.session, ""⟩ := by
  obtain ⟨p, hparse, hrun⟩ := runsAs_of_feedAll htrigger hexit hsuccess
  rw [String.empty_append] at hparse
  exact ⟨p, hparse, hrun⟩

/-- Two scripts, the second of which goes on with the table of the first and has two prints on
one line. -/
theorem feedAll_two_scripts :
    let t : Table := {
      columns := [⟨"name", .texts #[some "Ada"]⟩]
      rowCount := 1
      size_eq := List.forall_mem_singleton.2 rfl
      nodup := List.pairwise_singleton _ _
      rowCount_eq_zero := fun h => absurd h (List.cons_ne_nil _ _) }
    let source : TableSource := fun _ => .ok t
    let lines := ["load \"people\";", "print;"]
    let last := "print; print;"
    isTrigger last = true ∧ (∀ line ∈ lines ++ [last], isExit line = false) ∧
    (∀ reply ∈ (feedAll source {} 5 ⟨.empty, ""⟩ (lines ++ [last])).1, reply.isError = false) ∧
    ∃ p, Program.parse (textOf (lines ++ [last])) = .ok p ∧
      -- The replies, line by line: the first line is kept, and the two others run scripts.
      let run := Session.empty.run source {} p
      run.failure = none ∧
      Reply.outputs (feedAll source {} 5 ⟨.empty, ""⟩ (lines ++ [last])).1
        = reports title 5 run.answers ∧
      (feedAll source {} 5 ⟨.empty, ""⟩ (lines ++ [last])).2 = ⟨run.session, ""⟩ := by
  intro t source lines last
  have hloadLine : isExit "load \"people\";" = false ∧ isTrigger "load \"people\";" = false := by
    decide +kernel
  have hprintLine : isExit "print;" = false ∧ isTrigger "print;" = true := by
    decide +kernel
  have hlastLine : isExit "print; print;" = false ∧ isTrigger "print; print;" = true := by
    decide +kernel
  have hp : Program.parse "load \"people\";\nprint;\n" = .ok [.load "people", .print] := by
    have hlexes : Lexes "load \"people\";\nprint;\n".toList .start
        [⟨.keyword .load, "load", ⟨1, 1⟩⟩, ⟨.string "people", "\"people\"", ⟨1, 6⟩⟩,
          ⟨.semicolon, ";", ⟨1, 14⟩⟩, ⟨.keyword .print, "print", ⟨2, 1⟩⟩,
          ⟨.semicolon, ";", ⟨2, 6⟩⟩] ⟨3, 1⟩ := by
      iterate 5 refine .token rfl rfl ?_
      exact .atEnd rfl
    exact parse_of_statements hlexes.ofChars_eq (List.cons_ne_nil (.load "people") [.print]) rfl
  have hq : Program.parse "print; print;\n" = .ok [.print, .print] := by
    have hlexes : Lexes "print; print;\n".toList .start
        [⟨.keyword .print, "print", ⟨1, 1⟩⟩, ⟨.semicolon, ";", ⟨1, 6⟩⟩,
          ⟨.keyword .print, "print", ⟨1, 8⟩⟩, ⟨.semicolon, ";", ⟨1, 13⟩⟩] ⟨2, 1⟩ := by
      iterate 4 refine .token rfl rfl ?_
      exact .atEnd rfl
    exact parse_of_statements hlexes.ofChars_eq (List.cons_ne_nil .print [.print]) rfl
  have hexit : ∀ line ∈ lines ++ [last], isExit line = false := by
    simp [lines, last, hloadLine, hprintLine, hlastLine]
  have hsuccess : ∀ reply ∈ (feedAll source {} 5 ⟨.empty, ""⟩ (lines ++ [last])).1,
      reply.isError = false := by
    let run := Session.empty.run source {} [.load "people", .print]
    let run' := run.session.run source {} [.print, .print]
    have hfirst : feed source {} 5 ⟨.empty, ""⟩ "load \"people\";"
        = (.kept, ⟨.empty, "load \"people\";\n"⟩) :=
      feed_of_not_trigger hloadLine.1 hloadLine.2
    have hsecond : feed source {} 5 ⟨.empty, "load \"people\";\n"⟩ "print;"
        = (.output (reports title 5 run.answers), ⟨run.session, ""⟩) :=
      feed_of_parse hprintLine.1 hprintLine.2 hp rfl
    have hthird : feed source {} 5 ⟨run.session, ""⟩ "print; print;"
        = (.output (reports title 5 run'.answers), ⟨run'.session, ""⟩) :=
      feed_of_parse hlastLine.1 hlastLine.2 hq rfl
    show ∀ reply ∈ (feedAll source {} 5 ⟨.empty, ""⟩
      ["load \"people\";", "print;", "print; print;"]).1, reply.isError = false
    rw [feedAll_cons, hfirst]
    dsimp only
    rw [feedAll_cons, hsecond]
    dsimp only
    rw [feedAll_cons, hthird]
    simp [feedAll, Reply.isError]
  exact ⟨hlastLine.2, hexit, hsuccess,
    feedAll_eq_run source {} 5 .empty lines last hlastLine.2 hexit hsuccess⟩

end Console

end Roster.Shell
