import Roster.Proofs.Shell.Console
import Roster.Proofs.Shell.Script

/-!
# `Roster.Proofs.Shell.Chunks`: lines are run in chunks

A line that runs what has been kept is the last of its chunk, and the lines that leave the console
are in none. `IsCut` says so of all chunks of some lines at once, without taking the lines one after
the other, and there is exactly one such cut (`exists_isCut`, `IsCut.unique`).

Each chunk is one script. `ChunksRun` runs the scripts of the chunks, each once and in the session
that the one before it leaves, whether or not any of them fails. `feedAll_chunks` says that this is
all that a console does: it shows what comes of the chunks and has their session in the end, and it
has kept the lines behind the last chunk and nothing else.

The lines that leave the console are taken out first (`feedAll_filter`). What is left are the
lines of the chunks, and the induction is on these (`feedAll_flatten`): some text may have been kept
before the first chunk, but none before a later one.
-/

set_option autoImplicit false

namespace Roster

namespace Shell

namespace Reply

/-- Whether a reply says what has come of a script. -/
def ran : Reply → Bool
  | output _ | error _ => true
  | kept | left => false

/-- A reply says what has come of a script unless the line was kept or the console was left. -/
theorem ran_eq_true_iff {reply : Reply} :
    reply.ran = true ↔ reply ≠ .kept ∧ reply ≠ .left := by
  cases reply <;> simp [ran]

end Reply

namespace Console

variable {source : TableSource} {settings : Settings} {preview : Nat} {s s' : Session}
  {buffer line script : String} {lines rest rest' kept : List String}
  {chunks chunks' : List (List String)} {reply : Reply}

/-! ### Cuts -/

/-- Lines of which only the last runs what has been kept. -/
def IsChunk (chunk : List String) : Prop :=
  ∃ kept last, chunk = kept ++ [last] ∧ (∀ line ∈ kept, isTrigger line = false) ∧
    isTrigger last = true

/-- Lines cut into chunks, and the lines behind the last chunk. Lines that leave the console are not
among them. -/
structure IsCut (lines : List String) (chunks : List (List String)) (rest : List String) :
    Prop where
  filter_eq : (lines.filter fun line => !isExit line) = chunks.flatten ++ rest
  isChunk : ∀ chunk ∈ chunks, IsChunk chunk
  isTrigger_eq_false : ∀ line ∈ rest, isTrigger line = false

/-- Lines can be cut. The induction is on the lines from behind: a line that runs what is kept
starts a chunk of its own, and any other joins the first chunk. -/
theorem exists_isCut (lines : List String) : ∃ chunks rest, IsCut lines chunks rest := by
  induction lines with
  | nil => exact ⟨[], [], rfl, List.forall_mem_nil _, List.forall_mem_nil _⟩
  | cons line lines ih =>
    obtain ⟨chunks, rest, hlines, hchunks, hrest⟩ := ih
    cases hexit : isExit line with
    | true => exact ⟨chunks, rest, by simp [hexit, hlines], hchunks, hrest⟩
    | false =>
      cases htrigger : isTrigger line with
      | true =>
        refine ⟨[line] :: chunks, rest, by simp [hexit, hlines], ?_, hrest⟩
        exact List.forall_mem_cons.2 ⟨⟨[], line, rfl, List.forall_mem_nil _, htrigger⟩, hchunks⟩
      | false =>
        -- The line belongs to the first of the later chunks, if there is one.
        cases chunks with
        | nil =>
          refine ⟨[], line :: rest, by simpa [hexit] using hlines, List.forall_mem_nil _, ?_⟩
          exact List.forall_mem_cons.2 ⟨htrigger, hrest⟩
        | cons chunk chunks =>
          obtain ⟨⟨kept, last, rfl, hkept, hlast⟩, hlater⟩ := List.forall_mem_cons.1 hchunks
          refine ⟨(line :: (kept ++ [last])) :: chunks, rest, by simp [hexit, hlines], ?_, hrest⟩
          refine List.forall_mem_cons.2 ⟨⟨line :: kept, last, rfl, ?_, hlast⟩, hlater⟩
          exact List.forall_mem_cons.2 ⟨htrigger, hkept⟩

/-- The first line that runs what has been kept cuts lines at one place. -/
theorem kept_eq_of_append_eq {kept kept' after after' : List String} {last last' : String}
    (hkept : ∀ line ∈ kept, isTrigger line = false) (hlast : isTrigger last = true)
    (hkept' : ∀ line ∈ kept', isTrigger line = false) (hlast' : isTrigger last' = true)
    (h : kept ++ last :: after = kept' ++ last' :: after') : kept = kept' := by
  have htake : ∀ (kept after : List String) (last : String),
      (∀ line ∈ kept, isTrigger line = false) → isTrigger last = true →
      (kept ++ last :: after).takeWhile (fun line => !isTrigger line) = kept := by
    intro kept after last hkept hlast
    rw [List.takeWhile_append_of_pos (by simpa using hkept),
      List.takeWhile_cons_of_neg (by simp [hlast]), List.append_nil]
  rw [← htake kept after last hkept hlast, h, htake kept' after' last' hkept' hlast']

/-- There is only one way to cut lines. The first line that runs what is kept ends the first chunk,
in every cut. -/
theorem IsCut.unique (h : IsCut lines chunks rest) (h' : IsCut lines chunks' rest') :
    chunks = chunks' ∧ rest = rest' := by
  obtain ⟨hlines, hchunks, hrest⟩ := h
  obtain ⟨hlines', hchunks', hrest'⟩ := h'
  have heq := hlines.symm.trans hlines'
  clear hlines hlines'
  -- A chunk has a line that runs what has been kept, and the lines behind the chunks have none.
  have hno : ∀ {kept after rest : List String} {last : String}, isTrigger last = true →
      (∀ line ∈ rest, isTrigger line = false) → rest ≠ kept ++ last :: after := by
    rintro kept after rest last hlast hrest rfl
    exact absurd hlast (by simp [hrest last])
  induction chunks generalizing chunks' with
  | nil =>
    cases chunks' with
    | nil => exact ⟨rfl, heq⟩
    | cons chunk' chunks' =>
      obtain ⟨kept, last, rfl, -, hlast⟩ := hchunks' _ List.mem_cons_self
      rw [List.flatten_nil, List.nil_append, List.flatten_cons] at heq
      exact absurd (by simpa using heq) (hno hlast hrest)
  | cons chunk chunks ih =>
    obtain ⟨⟨kept, last, rfl, hkept, hlast⟩, hlater⟩ := List.forall_mem_cons.1 hchunks
    cases chunks' with
    | nil =>
      rw [List.flatten_nil, List.nil_append, List.flatten_cons] at heq
      exact absurd (by simpa using heq.symm) (hno hlast hrest')
    | cons chunk' chunks' =>
      obtain ⟨⟨kept', last', rfl, hkept', hlast'⟩, hlater'⟩ := List.forall_mem_cons.1 hchunks'
      simp only [List.flatten_cons, List.append_assoc, List.singleton_append] at heq
      obtain rfl := kept_eq_of_append_eq hkept hlast hkept' hlast' heq
      obtain ⟨rfl, hbehind⟩ := List.cons_eq_cons.1 (List.append_cancel_left heq)
      obtain ⟨rfl, rfl⟩ := ih hlater hlater' hbehind
      exact ⟨rfl, rfl⟩

/-! ### What comes of a chunk -/

/-- What a console says of what has come of a script. -/
inductive Shows (preview : Nat) : Except CommandError (List Answer) → Reply → Prop
  | answers (answers : List Answer) :
      Shows preview (.ok answers) (.output (reports title preview answers))
  | parse (cause : ParseError) :
      Shows preview (.error (.parse cause)) (.error s!"Error: {cause.message}")
  | execution (cause : StatementError) :
      Shows preview (.error (.execution cause)) (.error s!"Error: {cause.message}")

/-- Scripts run one after the other, each in the session that the one before it leaves, and what is
said of each of them. -/
inductive ChunksRun (source : TableSource) (settings : Settings) (preview : Nat) :
    Session → List String → List Reply → Session → Prop
  | nil (s : Session) : ChunksRun source settings preview s [] [] s
  | cons {s s' s'' : Session} {script : String} {scripts : List String}
      {result : Except CommandError (List Answer)} {reply : Reply} {replies : List Reply} :
      ScriptRuns source settings s script result s' → Shows preview result reply →
      ChunksRun source settings preview s' scripts replies s'' →
      ChunksRun source settings preview s (script :: scripts) (reply :: replies) s''

/-- A console does with a script what comes of it, and says so. What it says is a parse error, an
execution error, or the reports. -/
theorem scriptRuns_runScript (source : TableSource) (settings : Settings) (preview : Nat)
    (s : Session) (script : String) :
    ∃ result, ScriptRuns source settings s script result
        (runScript source settings preview s script).2 ∧
      Shows preview result (runScript source settings preview s script).1 := by
  refine ⟨(answersIn source settings s script).1, ?_⟩
  have hruns := scriptRuns_answersIn source settings s script
  unfold runScript
  cases hparse : Program.parse script with
  | error cause =>
    rw [answersIn_of_unread hparse] at hruns ⊢
    exact ⟨hruns, .parse cause⟩
  | ok p =>
    rw [answersIn_of_parse hparse] at hruns ⊢
    dsimp only [Run.outcome] at hruns ⊢
    cases hfailure : (s.run source settings p).failure with
    | none =>
      rw [hfailure] at hruns
      exact ⟨hruns, .answers _⟩
    | some cause =>
      rw [hfailure] at hruns
      exact ⟨hruns, .execution cause⟩

/-- A script that can be read leaves what a run leaves that is listened to. -/
theorem session_runEach_of_scriptRuns {p : Program} {result : Except CommandError (List Answer)}
    {σ : Type} {listen : σ → Answer → σ} {w : σ}
    (h : ScriptRuns source settings s script result s') (hparse : Program.parse script = .ok p) :
    (s.runEach source settings listen w p).2.1 = s' := by
  have hanswers := h.eq_answersIn
  rw [answersIn_of_parse hparse] at hanswers
  rw [Session.runEach_eq]
  exact congrArg Prod.snd hanswers

/-! ### Lines of chunks -/

/-- The scripts of chunks, when some text has been kept before them. -/
def chunkTexts (buffer : String) : List (List String) → List String
  | [] => []
  | chunk :: chunks => (buffer ++ textOf chunk) :: chunks.map textOf

/-- What is kept behind chunks, when some text has been kept before them. -/
def openText (buffer : String) (chunks : List (List String)) (rest : List String) : String :=
  (if chunks.isEmpty then buffer else "") ++ textOf rest

/-- With nothing kept before them, chunks are scripts of their own lines. -/
theorem chunkTexts_empty (chunks : List (List String)) :
    chunkTexts "" chunks = chunks.map textOf := by
  cases chunks with
  | nil => rfl
  | cons chunk chunks => rw [chunkTexts, String.empty_append, List.map_cons]

/-- What a console says to a line, as far as the line tells it. -/
structure RepliesTo (line : String) (reply : Reply) : Prop where
  left_iff : reply = .left ↔ isExit line = true
  kept_iff : reply = .kept ↔ isExit line = false ∧ isTrigger line = false
  ran_iff : reply.ran = true ↔ isExit line = false ∧ isTrigger line = true

/-- What shows the result of a script says what has come of it. -/
theorem Shows.ran_eq_true {result : Except CommandError (List Answer)}
    (h : Shows preview result reply) : reply.ran = true := by
  cases h <;> rfl

/-- A console replies to every line according to the line alone. The text that has been kept decides
what comes of a script, but not whether one is run. -/
theorem repliesTo_feed (c : Console) (line : String) :
    RepliesTo line (feed source settings preview c line).1 := by
  cases hexit : isExit line with
  | true =>
    rw [feed_of_exit hexit]
    exact ⟨by simp [hexit], by simp [hexit], by simp [Reply.ran, hexit]⟩
  | false =>
    cases htrigger : isTrigger line with
    | false =>
      rw [feed_of_not_trigger hexit htrigger]
      exact ⟨by simp [hexit], by simp [hexit, htrigger], by simp [Reply.ran, htrigger]⟩
    | true =>
      rw [feed_of_trigger hexit htrigger]
      obtain ⟨result, -, hshows⟩ := scriptRuns_runScript source settings preview c.session
        (c.buffer ++ line ++ "\n")
      obtain ⟨hkept, hleft⟩ := Reply.ran_eq_true_iff.1 hshows.ran_eq_true
      exact ⟨by simp [hexit, hleft], by simp [htrigger, hkept],
        by simp [hexit, htrigger, hshows.ran_eq_true]⟩

/-- There is one reply for each line. -/
theorem forall₂_repliesTo (c : Console) (lines : List String) :
    List.Forall₂ RepliesTo lines (feedAll source settings preview c lines).1 := by
  induction lines generalizing c with
  | nil => exact .nil
  | cons line rest ih =>
    rw [feedAll_cons]
    dsimp only
    exact .cons (repliesTo_feed c line) (ih _)

/-- The lines that leave the console can be taken out. They give replies, but none that has run a
script, and they leave the console as it is. -/
theorem feedAll_filter (source : TableSource) (settings : Settings) (preview : Nat) (c : Console)
    (lines : List String) :
    (feedAll source settings preview c lines).2
      = (feedAll source settings preview c (lines.filter fun line => !isExit line)).2 ∧
    (feedAll source settings preview c lines).1.filter Reply.ran
      = (feedAll source settings preview c (lines.filter fun line => !isExit line)).1.filter
        Reply.ran := by
  induction lines generalizing c with
  | nil => exact ⟨rfl, rfl⟩
  | cons line rest ih =>
    cases hexit : isExit line with
    | true =>
      rw [feedAll_cons, feed_of_exit hexit, List.filter_cons_of_neg (by simp [hexit])]
      exact ih c
    | false =>
      rw [List.filter_cons_of_pos (by simp [hexit]), feedAll_cons, feedAll_cons]
      obtain ⟨hconsole, hreplies⟩ := ih (feed source settings preview c line).2
      refine ⟨hconsole, ?_⟩
      dsimp only
      rw [List.filter_cons, List.filter_cons, hreplies]

/-- Lines that do not run what has been kept are kept too. -/
theorem feedAll_of_not_trigger (hexit : ∀ line ∈ lines, isExit line = false)
    (htrigger : ∀ line ∈ lines, isTrigger line = false) :
    feedAll source settings preview ⟨s, buffer⟩ lines
      = (lines.map fun _ => .kept, ⟨s, buffer ++ textOf lines⟩) := by
  induction lines generalizing buffer with
  | nil => exact congrArg (fun text => ([], Console.mk s text)) String.append_empty.symm
  | cons line rest ih =>
    obtain ⟨hexit, hexits⟩ := List.forall_mem_cons.1 hexit
    obtain ⟨htrigger, htriggers⟩ := List.forall_mem_cons.1 htrigger
    rw [feedAll_cons, feed_of_not_trigger hexit htrigger, append_textOf_cons]
    dsimp only
    rw [ih hexits htriggers]
    rfl

/-- The lines of a chunk run the script that they make with what has been kept. -/
theorem feedAll_of_isChunk (source : TableSource) (settings : Settings) (preview : Nat)
    (s : Session) (buffer : String) {chunk : List String} (h : IsChunk chunk)
    (hexit : ∀ line ∈ chunk, isExit line = false) :
    let r := runScript source settings preview s (buffer ++ textOf chunk)
    (feedAll source settings preview ⟨s, buffer⟩ chunk).1.filter Reply.ran = [r.1] ∧
    (feedAll source settings preview ⟨s, buffer⟩ chunk).2 = ⟨r.2, ""⟩ := by
  obtain ⟨kept, last, rfl, hkept, hlast⟩ := h
  obtain ⟨result, -, hshows⟩ := scriptRuns_runScript source settings preview s
    (buffer ++ textOf (kept ++ [last]))
  have htext : buffer ++ textOf (kept ++ [last]) = buffer ++ textOf kept ++ last ++ "\n" := by
    rw [textOf_append, ← String.append_assoc, append_textOf_cons]
    exact String.append_empty
  have hexits : ∀ line ∈ kept, isExit line = false :=
    fun line hmem => hexit line (List.mem_append_left _ hmem)
  -- All lines but the last one are kept.
  rw [feedAll_append, feedAll_of_not_trigger hexits hkept]
  dsimp only
  rw [feedAll_cons, feed_of_trigger (hexit last (by simp)) hlast, ← htext]
  have hnone : (kept.map fun _ => Reply.kept).filter Reply.ran = [] := by
    simp [Reply.ran]
  refine ⟨?_, rfl⟩
  rw [List.filter_append, hnone, List.nil_append]
  exact List.filter_cons_of_pos hshows.ran_eq_true

/-- Nothing is kept behind a line that runs what has been kept. -/
theorem buffer_feedAll_of_trigger (source : TableSource) (settings : Settings) (preview : Nat)
    (c : Console) (before : List String) {last : String} (hexit : isExit last = false)
    (htrigger : isTrigger last = true) :
    (feedAll source settings preview c (before ++ [last])).2.buffer = "" := by
  rw [feedAll_append]
  dsimp only
  obtain ⟨s, buffer⟩ := (feedAll source settings preview c before).2
  rw [feedAll_cons, feed_of_trigger hexit htrigger]
  rfl

/-- The lines of chunks, and those behind the last one. The induction is on the chunks, of which
only the first one finds something in the buffer. -/
theorem feedAll_flatten (source : TableSource) (settings : Settings) (preview : Nat) (s : Session)
    (buffer : String) (hchunks : ∀ chunk ∈ chunks, IsChunk chunk)
    (hrest : ∀ line ∈ rest, isTrigger line = false)
    (hexit : ∀ line ∈ chunks.flatten ++ rest, isExit line = false) :
    let r := feedAll source settings preview ⟨s, buffer⟩ (chunks.flatten ++ rest)
    ChunksRun source settings preview s (chunkTexts buffer chunks) (r.1.filter Reply.ran)
      r.2.session ∧
    r.2.buffer = openText buffer chunks rest := by
  induction chunks generalizing s buffer with
  | nil =>
    rw [List.flatten_nil, List.nil_append, feedAll_of_not_trigger (by simpa using hexit) hrest]
    have hnone : (rest.map fun _ => Reply.kept).filter Reply.ran = [] := by
      simp [Reply.ran]
    refine ⟨?_, rfl⟩
    rw [hnone]
    exact .nil s
  | cons chunk chunks ih =>
    obtain ⟨hchunk, hlater⟩ := List.forall_mem_cons.1 hchunks
    rw [List.flatten_cons, List.append_assoc] at hexit ⊢
    obtain ⟨hreplies, hconsole⟩ := feedAll_of_isChunk source settings preview s buffer hchunk
      fun line hmem => hexit line (List.mem_append_left _ hmem)
    obtain ⟨result, hruns, hshows⟩ := scriptRuns_runScript source settings preview s
      (buffer ++ textOf chunk)
    -- Behind the first chunk the buffer is empty, and the others start anew.
    obtain ⟨hrun, hbuffer⟩ := ih
      (runScript source settings preview s (buffer ++ textOf chunk)).2 "" hlater
      fun line hmem => hexit line (List.mem_append_right _ hmem)
    rw [feedAll_append]
    dsimp only
    rw [hconsole, List.filter_append, hreplies]
    rw [chunkTexts_empty] at hrun
    refine ⟨.cons hruns hshows hrun, ?_⟩
    rw [hbuffer, openText, openText, ite_self]
    rfl

/-- A console runs lines in chunks, and a chunk that fails takes nothing with it but itself.

- Lines can be cut in exactly one way: the chunks hold, in their order, the lines that do not leave
  the console, up to the last line that runs what has been kept.
- The scripts of the chunks are run, each once and in the session that the one before it leaves, and
  what has come of each is said to its last line. The script of a chunk is its lines, each with a
  line feed; what has been kept before all lines stands in front of the first. In the end the
  lines behind the last chunk are kept.
- A script that cannot be read leaves the session as it is. One that can be read leaves what a run
  leaves that is listened to, which is what the statements before the first one that fails do.
- Lines that leave the console change nothing.
- Behind a line that runs what has been kept, whatever comes of it, a console goes on as a new one
  does with the same session. -/
theorem feedAll_chunks (source : TableSource) (settings : Settings) (preview : Nat) (c : Console)
    (lines : List String) :
    (∃ chunks rest, IsCut lines chunks rest ∧
      (∀ chunks' rest', IsCut lines chunks' rest' → chunks' = chunks ∧ rest' = rest) ∧
      let (replies, c') := feedAll source settings preview c lines
      List.Forall₂ RepliesTo lines replies ∧
      ChunksRun source settings preview c.session (chunkTexts c.buffer chunks)
        (replies.filter Reply.ran) c'.session ∧
      c'.buffer = openText c.buffer chunks rest) ∧
    (∀ s s' script p result (σ : Type) (listen : σ → Answer → σ) (w : σ),
      ScriptRuns source settings s script result s' → Program.parse script = .ok p →
      (s.runEach source settings listen w p).2.1 = s') ∧
    (feedAll source settings preview c lines).2
      = (feedAll source settings preview c (lines.filter fun line => !isExit line)).2 ∧
    ∀ before last after, lines = before ++ last :: after → isExit last = false →
      isTrigger last = true →
      let (replies, c') := feedAll source settings preview c (before ++ [last])
      let (later, c'') := feedAll source settings preview ⟨c'.session, ""⟩ after
      c'.buffer = "" ∧ feedAll source settings preview c lines = (replies ++ later, c'') := by
  have hfilter := feedAll_filter source settings preview c lines
  refine ⟨?_, fun s s' script p result σ listen w => session_runEach_of_scriptRuns, hfilter.1, ?_⟩
  · obtain ⟨chunks, rest, hcut⟩ := exists_isCut lines
    -- The cut is one of the lines that do not leave the console.
    have hexit : ∀ line ∈ chunks.flatten ++ rest, isExit line = false := by
      intro line hmem
      rw [← hcut.filter_eq] at hmem
      simpa using (List.mem_filter.1 hmem).2
    rw [hcut.filter_eq] at hfilter
    refine ⟨chunks, rest, hcut, fun chunks' rest' hcut' => hcut'.unique hcut,
      forall₂_repliesTo c lines, ?_⟩
    rw [hfilter.1, hfilter.2]
    exact feedAll_flatten source settings preview c.session c.buffer hcut.isChunk
      hcut.isTrigger_eq_false hexit
  · rintro before last after rfl hexit htrigger
    have hbuffer := buffer_feedAll_of_trigger source settings preview c before hexit htrigger
    refine ⟨hbuffer, ?_⟩
    rw [← List.singleton_append, ← List.append_assoc, feedAll_append, ← hbuffer]

end Console

end Shell

end Roster
