import Roster.Proofs.Script.Feeds

/-!
# `Roster.Proofs.Script.Tiling`: what an iteration over a script leaves out

Lexemes and trivia make up a script, and an iteration over it ends.

* `Position.behind` counts the line and the column of a character from what stands before it.
  `behind_append` shows that this is the position that reading carries along.
* `Trivia` says what may stand between two lexemes: blanks, and comments that go on to the end of
  their line. `trivia_of_skipTrivia` shows that nothing else is skipped.
* `Tiles` places spans in a script, one behind the other with nothing but trivia before each, and
  `Marks` says what of the script an item of the iteration stands for. `exists_spans` finds the
  spans. Its induction is on the text that is left, and it has to hold behind every text that has
  been read, because the offsets and the positions are those of the whole script.
* `walk_tiles` puts these together: an iteration gives at most one item more than there are
  characters, all but the last are lexemes, and the items tile the script.
-/

set_option autoImplicit false

namespace Roster

open Text

/-! ### Positions -/

namespace Position

/-- The position behind a text that starts a script: its line feeds are counted, and the
characters behind the last of them. -/
def behind (before : List Char) : Position where
  line := 1 + before.count '\n'
  column := 1 + (before.reverse.takeWhile (· != '\n')).length

/-- One more character moves the position behind a text by one. -/
theorem behind_concat (before : List Char) (c : Char) :
    behind (before ++ [c]) = (behind before).after c := by
  by_cases hc : c = '\n'
  · subst hc
    simp [behind, after]
    omega
  · simp [behind, after, hc]
    omega

/-- Reading a text moves on from the position before it to the one behind it. -/
theorem behind_append (before cs : List Char) :
    behind (before ++ cs) = (behind before).afterAll cs := by
  induction cs generalizing before with
  | nil => simp [afterAll]
  | cons c cs ih =>
    have hstep := ih (before ++ [c])
    rw [behind_concat] at hstep
    rw [List.append_cons, hstep]
    rfl

end Position

/-! ### Trivia -/

/-- Whether a text is blanks and whole comments, if `rest` follows it. A comment is whole if a
line feed or the end of the script follows it. -/
inductive Trivia (rest : List Char) : List Char → Prop
  | nil : Trivia rest []
  | blank {c : Char} {gap : List Char} (hc : isBlank c = true) (hgap : Trivia rest gap) :
    Trivia rest (c :: gap)
  | comment {body gap : List Char} (hbody : '\n' ∉ body)
    (hend : gap ++ rest = [] ∨ (gap ++ rest).head? = some '\n') (hgap : Trivia rest gap) :
    Trivia rest ('/' :: '/' :: (body ++ gap))

/-- A comment goes on to a line feed or to the end of the script. -/
theorem dropWhile_lineFeed (cs : List Char) :
    cs.dropWhile (· != '\n') = [] ∨ (cs.dropWhile (· != '\n')).head? = some '\n' := by
  have hstop := List.head?_dropWhile_not (· != '\n') cs
  cases h : cs.dropWhile (· != '\n') with
  | nil => exact .inl rfl
  | cons c rest =>
    rw [h] at hstop
    exact .inr (by simpa using hstop)

/-- Inside a comment all is skipped up to its end, and then the trivia behind it. -/
theorem skipTrivia_comment (cs : List Char) (p : Position) :
    Lexer.skipTrivia true cs p
      = Lexer.skipTrivia false (cs.dropWhile (· != '\n'))
          (p.afterAll (cs.takeWhile (· != '\n'))) := by
  induction cs generalizing p with
  | nil => rfl
  | cons c cs ih =>
    by_cases hc : c = '\n'
    · subst hc
      rfl
    · have hne : (c != '\n') = true := by simpa using hc
      rw [List.dropWhile_cons_of_pos (p := (· != '\n')) hne,
        List.takeWhile_cons_of_pos (p := (· != '\n')) hne]
      simp only [Lexer.skipTrivia, if_true, hne]
      exact ih (p.after c)

/-- What is skipped is trivia, and moves the position on. -/
theorem exists_skipped (cs : List Char) (p : Position) :
    ∃ gap, cs = gap ++ (Lexer.skipTrivia false cs p).1 ∧
      (Lexer.skipTrivia false cs p).2 = p.afterAll gap ∧
      Trivia (Lexer.skipTrivia false cs p).1 gap := by
  -- A comment is skipped as a whole, so the induction is on the length of the text.
  induction hn : cs.length using Nat.strong_induction_on generalizing cs p with
  | _ n ih =>
    subst hn
    cases cs with
    | nil => exact ⟨[], rfl, rfl, .nil⟩
    | cons c cs =>
      unfold Lexer.skipTrivia
      rw [if_neg Bool.false_ne_true]
      split
      · rename_i hblank
        obtain ⟨gap, hsplit, hposition, hgap⟩ := ih cs.length (by simp) cs (p.after c) rfl
        exact ⟨c :: gap, congrArg (c :: ·) hsplit, hposition, .blank hblank hgap⟩
      split
      · rename_i hslashes
        -- A comment goes up to its line feed, which is left, and more trivia may stand behind it.
        obtain ⟨rfl, more, rfl⟩ : c = '/' ∧ ∃ more, cs = '/' :: more := by
          simpa [List.head?_eq_some_iff] using hslashes
        have hbody : '\n' ∉ more.takeWhile (· != '\n') := by
          intro hmem
          have := List.mem_takeWhile_imp hmem
          simp at this
        have hlength : (more.dropWhile (· != '\n')).length < ('/' :: '/' :: more).length := by
          have hle := (List.dropWhile_sublist (l := more) (· != '\n')).length_le
          simp only [List.length_cons]
          omega
        obtain ⟨gap, hsplit, hposition, hgap⟩ := ih _ hlength _
          (p.afterAll ('/' :: '/' :: more.takeWhile (· != '\n'))) rfl
        have hcomment : Lexer.skipTrivia true ('/' :: more) (p.after '/')
            = Lexer.skipTrivia false (more.dropWhile (· != '\n'))
                (p.afterAll ('/' :: '/' :: more.takeWhile (· != '\n'))) :=
          skipTrivia_comment ('/' :: more) (p.after '/')
        rw [hcomment]
        refine ⟨'/' :: '/' :: (more.takeWhile (· != '\n') ++ gap), ?_, ?_, ?_⟩
        · rw [List.cons_append, List.cons_append, List.append_assoc, ← hsplit,
            List.takeWhile_append_dropWhile]
        · rw [hposition]
          simp [Position.afterAll]
        · refine .comment hbody ?_ hgap
          rw [← hsplit]
          exact dropWhile_lineFeed more
      · exact ⟨[], rfl, rfl, .nil⟩

/-! ### Spans -/

/-- A stretch of a script: its characters from `start` on, up to but not including `stop`. -/
structure Span where
  start : Nat
  stop : Nat

namespace Span

/-- The characters of a span. -/
def of (s : Span) (source : List Char) : List Char := (source.take s.stop).drop s.start

/-- The span of a text behind another one. -/
def following (before text : List Char) : Span := ⟨before.length, before.length + text.length⟩

/-- A span that follows some characters is what stands behind these. -/
theorem of_following (before text rest : List Char) :
    (following before text).of (before ++ (text ++ rest)) = text := by
  simp [following, of, List.take_append]

end Span

/-- Whether spans stand in a script behind the character `stop`, one behind the other, with
nothing but trivia before each of them. -/
inductive Tiles (source : List Char) : Nat → List Span → Prop
  | nil (stop : Nat) : Tiles source stop []
  | cons {stop : Nat} {s : Span} {spans : List Span} (hstart : stop ≤ s.start)
    (hstop : s.start ≤ s.stop) (hlength : s.stop ≤ source.length)
    (hgap : Trivia (source.drop s.start) (Span.of ⟨stop, s.start⟩ source))
    (hspans : Tiles source s.stop spans) : Tiles source stop (s :: spans)

/-- Whether an item of an iteration is what stands in a span of a script, at the position of
its first character. -/
inductive Marks (source : List Char) (s : Span) : LexItem → Prop
  /-- A lexeme has characters. -/
  | lexeme {l : Lexeme} (htext : s.of source = l.text.toList) (hne : s.start < s.stop)
    (hposition : l.position = .behind (source.take s.start)) (htoken : l.token ≠ .eof) :
    Marks source s (.ok l)
  /-- The end of the script has none, and nothing is left behind it. -/
  | atEnd (hstart : s.start = source.length) (hstop : s.stop = source.length) :
    Marks source s (.ok (.atEnd (.behind source)))
  | unexpectedChar {c : Char} (htext : s.of source = [c]) :
    Marks source s (.error (.unexpectedChar c (.behind (source.take s.start))))
  /-- An unknown word is read as far as characters of words go. -/
  | unknownWord {word : List Char} (htext : s.of source = word) (hne : word ≠ [])
    (hword : word = (source.drop s.start).takeWhile Lexer.continuesWord) :
    Marks source s (.error (.unknownWord (String.ofList word) (.behind (source.take s.start))))
  /-- An unterminated string goes on to the end of the script. -/
  | unterminatedString {body : List Char} (htext : s.of source = '"' :: body)
    (hbody : '"' ∉ body) (hstop : s.stop = source.length) :
    Marks source s (.error (.unterminatedString (.behind (source.take s.start))))

namespace Tiles

/-- A text behind a gap is a span, if spans go on behind it. -/
theorem cons_following {before gap text rest : List Char} {spans : List Span}
    (hgap : Trivia (text ++ rest) gap)
    (hspans : Tiles (before ++ (gap ++ (text ++ rest))) (before ++ (gap ++ text)).length spans) :
    Tiles (before ++ (gap ++ (text ++ rest))) before.length
      (Span.following (before ++ gap) text :: spans) := by
  -- The span starts behind the gap and stops behind the text.
  have hstart : (Span.following (before ++ gap) text).start = before.length + gap.length :=
    List.length_append
  have hstop : (Span.following (before ++ gap) text).stop = (before ++ (gap ++ text)).length := by
    simp only [Span.following, List.length_append]
    omega
  refine .cons ?_ ?_ ?_ ?_ ?_
  · omega
  · simp only [List.length_append] at hstop
    omega
  · simp only [List.length_append] at hstop ⊢
    omega
  · have hskipped : Span.of ⟨before.length, before.length + gap.length⟩
        (before ++ (gap ++ (text ++ rest))) = gap := Span.of_following before gap (text ++ rest)
    have hrest : (before ++ (gap ++ (text ++ rest))).drop (before.length + gap.length)
        = text ++ rest := by
      simp [List.drop_append]
    rw [hstart, hskipped, hrest]
    exact hgap
  · rw [hstop]
    exact hspans

end Tiles

namespace Marks

variable {before gap text rest : List Char}

/-- What stands behind a gap is at the position that has been reached there. -/
theorem take_following (before gap text rest : List Char) :
    (before ++ (gap ++ (text ++ rest))).take (Span.following (before ++ gap) text).start
      = before ++ gap := by
  rw [← List.append_assoc]
  exact List.take_left

/-- A token behind a gap is marked. -/
theorem lexeme_following {token : Token} (htoken : token ≠ .eof) (hne : text ≠ []) :
    Marks (before ++ (gap ++ (text ++ rest))) (Span.following (before ++ gap) text)
      (.ok ⟨token, String.ofList text, .behind (before ++ gap)⟩) := by
  have htext := Span.of_following (before ++ gap) text rest
  rw [List.append_assoc] at htext
  refine .lexeme ?_ ?_ ?_ htoken
  · rw [htext, String.toList_ofList]
  · have := List.length_pos_iff.2 hne
    simp only [Span.following]
    omega
  · rw [take_following]

/-- A character that starts no lexeme is marked. -/
theorem unexpectedChar_following (before gap : List Char) (c : Char) (rest : List Char) :
    Marks (before ++ (gap ++ ([c] ++ rest))) (Span.following (before ++ gap) [c])
      (.error (.unexpectedChar c (.behind (before ++ gap)))) := by
  have htext := Span.of_following (before ++ gap) [c] rest
  rw [List.append_assoc] at htext
  have hmark := Marks.unexpectedChar htext
  rwa [take_following] at hmark

/-- A faulty word or string behind a gap is marked. -/
theorem fault_following {c : Char} {cs : List Char} {fault : Position → LexError}
    (hscan : Lexer.scanAt c cs = .taken (.error fault) text rest) :
    Marks (before ++ (gap ++ (text ++ rest))) (Span.following (before ++ gap) text)
      (.error (fault (.behind (before ++ gap)))) := by
  have htext := Span.of_following (before ++ gap) text rest
  rw [List.append_assoc] at htext
  obtain ⟨hsplit, hne⟩ := Lexer.append_of_scanAt hscan
  rcases Lexer.scanAt_error_cases hscan with ⟨hword, -⟩ | ⟨hstring, -⟩
  · -- A word that is no keyword is marked as far as its characters go.
    obtain ⟨rfl, htaken, -⟩ := Lexer.scanWord_error hword
    have hdrop : (before ++ (gap ++ (text ++ rest))).drop
        (Span.following (before ++ gap) text).start = c :: cs := by
      rw [← hsplit]
      simp [Span.following, List.drop_append]
    have hmark := Marks.unknownWord htext hne (by rw [hdrop]; exact htaken)
    rwa [take_following] at hmark
  · -- A string with no closing quote goes to the end of the script.
    obtain ⟨rfl, hbody, rfl, rfl⟩ := Lexer.scanString_error hstring
    have hstop : (Span.following (before ++ gap) ('"' :: cs)).stop
        = (before ++ (gap ++ ('"' :: cs ++ []))).length := by
      simp only [Span.following, List.length_append, List.length_nil]
      omega
    have hmark := Marks.unterminatedString htext hbody hstop
    rwa [take_following] at hmark

/-- The end of the script is marked behind the last gap. -/
theorem atEnd_following (before gap : List Char) :
    Marks (before ++ (gap ++ ([] ++ []))) (Span.following (before ++ gap) [])
      (.ok (.atEnd (.behind (before ++ gap)))) := by
  have hlength : (Span.following (before ++ gap) []).start = (before ++ gap).length := rfl
  rw [List.append_nil, List.append_nil]
  exact .atEnd hlength hlength

end Marks

/-! ### Reading one item -/

/-- The feed of the rest of a script, by what stands behind the first gap. -/
inductive FirstItem (before : List Char) : List Char → Feed → Prop
  /-- Nothing but trivia is left. -/
  | atEnd {gap : List Char} (hgap : Trivia [] gap) :
    FirstItem before gap ⟨[], .eof (.behind (before ++ gap))⟩
  | stuck {gap more : List Char} {c : Char} (hgap : Trivia (c :: more) gap)
    (hscan : Lexer.scanAt c more = .stuck) :
    FirstItem before (gap ++ c :: more) ⟨[], .stuck c (.behind (before ++ gap))⟩
  | fault {gap more text rest : List Char} {c : Char} {fault : Position → LexError}
    (hgap : Trivia (text ++ rest) gap) (htext : text ++ rest = c :: more)
    (hscan : Lexer.scanAt c more = .taken (.error fault) text rest) :
    FirstItem before (gap ++ (text ++ rest))
      (let f := Feed.ofChars rest (.behind (before ++ (gap ++ text)))
      ⟨.error (fault (.behind (before ++ gap))) :: f.items, f.ending⟩)
  | token {gap more text rest : List Char} {c : Char} {token : Token}
    (hgap : Trivia (text ++ rest) gap) (htext : text ++ rest = c :: more)
    (hscan : Lexer.scanAt c more = .taken (.ok token) text rest) :
    FirstItem before (gap ++ (text ++ rest))
      (let f := Feed.ofChars rest (.behind (before ++ (gap ++ text)))
      ⟨.ok ⟨token, String.ofList text, .behind (before ++ gap)⟩ :: f.items, f.ending⟩)

/-- Reading goes on behind what has been read, at the position counted from the start. What is
skipped is the gap before the item. The item is told by where its text starts, counted from the
start of the script. -/
theorem firstItem_ofChars (before cs : List Char) :
    FirstItem before cs (Feed.ofChars cs (.behind before)) := by
  obtain ⟨gap, hsplit, hstart, hgap⟩ := exists_skipped cs (.behind before)
  rw [← Position.behind_append] at hstart
  rw [Feed.ofChars_eq]
  cases hskip : Lexer.skipTrivia false cs (.behind before) with
  | mk left start =>
    rw [hskip] at hsplit hstart hgap
    dsimp only at hsplit hstart hgap
    -- The gap has been skipped, and the position is counted behind it.
    subst hstart hsplit
    cases left with
    | nil =>
      rw [List.append_nil]
      exact .atEnd hgap
    | cons c more =>
      dsimp only
      cases hscan : Lexer.scanAt c more with
      | stuck => exact .stuck hgap hscan
      | taken outcome text rest =>
        obtain ⟨htext, -⟩ := Lexer.append_of_scanAt hscan
        -- Counting on over the text gives the position counted from the start.
        have hposition : (Position.behind (before ++ gap)).afterAll text
            = .behind (before ++ (gap ++ text)) := by
          rw [← Position.behind_append, List.append_assoc]
        rw [← htext] at hgap ⊢
        cases outcome with
        | error fault =>
          dsimp only
          rw [hposition]
          exact .fault hgap htext hscan
        | ok token =>
          dsimp only
          rw [hposition]
          exact .token hgap htext hscan

/-- The items of an iteration over the rest of a script tile that rest. The induction is on the
length of the rest. A fault or the end of the script is the last span, and behind a lexeme the rest
is shorter. -/
theorem exists_spans (before cs : List Char) {f : Feed}
    (hf : f = Feed.ofChars cs (.behind before)) :
    ∃ spans, Tiles (before ++ cs) before.length spans ∧
      List.Forall₂ (Marks (before ++ cs)) spans (Feed.untilStop f.ending f.items) ∧
      spans.length ≤ cs.length + 1 := by
  induction hn : cs.length using Nat.strong_induction_on generalizing before cs f with
  | _ n ih =>
    subst hn
    have hfirst := firstItem_ofChars before cs
    rw [← hf] at hfirst
    clear hf
    cases hfirst with
    | atEnd hgap =>
      have hmark := Marks.atEnd_following before cs
      have htiles := @Tiles.cons_following before cs [] [] _ hgap (.nil _)
      rw [List.append_nil, List.append_nil] at htiles hmark
      exact ⟨_, htiles, .cons hmark .nil, by simp⟩
    | @stuck gap more c hgap hscan =>
      have htiles := @Tiles.cons_following before gap [c] more _ hgap (.nil _)
      exact ⟨_, htiles, .cons (Marks.unexpectedChar_following before gap c more) .nil, by simp⟩
    | fault hgap htext hscan =>
      refine ⟨_, Tiles.cons_following hgap (.nil _), ?_, by simp⟩
      exact .cons (Marks.fault_following hscan) .nil
    | @token gap more text rest c token hgap htext hscan =>
      obtain ⟨-, hne⟩ := Lexer.append_of_scanAt hscan
      have htoken : token ≠ .eof := (Lexer.spelled_of_scanAt hscan).ne_eof
      have hshorter : rest.length < (gap ++ (text ++ rest)).length := by
        have := List.length_pos_iff.2 hne
        simp only [List.length_append]
        omega
      -- What has been read is counted to the text before, and the rest is shorter.
      obtain ⟨spans, htiles, hmarks, hlength⟩ :=
        ih rest.length hshorter (before ++ (gap ++ text)) rest rfl rfl
      have hsource : before ++ (gap ++ text) ++ rest = before ++ (gap ++ (text ++ rest)) := by
        simp only [List.append_assoc]
      rw [hsource] at htiles hmarks
      refine ⟨_, Tiles.cons_following hgap htiles, ?_, ?_⟩
      · exact .cons (Marks.lexeme_following htoken hne) hmarks
      · rw [List.length_cons]
        omega

/-! ### Iterations -/

namespace Walk

/-- The answers to a number of calls, one after the other. -/
def answers : Nat → Walk → List (Option LexItem)
  | 0, _ => []
  | n + 1, w => w.next.1 :: answers n w.next.2

/-- A walk that is over gives nothing any more. -/
theorem answers_of_finished (n : Nat) (f : Feed) :
    answers n ⟨f, true⟩ = List.replicate n none := by
  induction n with
  | zero => rfl
  | succ n ih =>
    rw [answers, List.replicate_succ]
    exact congrArg (none :: ·) ih

/-- A walk gives the items up to the first fault or the end of the script, and then nothing. The
induction is on the items. A walk is finished behind its last item, and then gives nothing at every
call. -/
theorem answers_eq {f : Feed} (heof : ∀ l, .ok l ∈ f.items → l.token ≠ .eof) (n : Nat) :
    let items := Feed.untilStop f.ending f.items
    answers n ⟨f, false⟩ = (items.map some).take n ++ List.replicate (n - items.length) none := by
  obtain ⟨items, ending⟩ := f
  dsimp only at heof ⊢
  induction items generalizing n with
  | nil =>
    cases n with
    | zero => simp [answers]
    | succ n =>
      -- The ending is the last item, whether it is the end of the script or a fault.
      have hlast : isLast ending.item = true := by cases ending <;> rfl
      have hnext : (⟨⟨[], ending⟩, false⟩ : Walk).next
          = (some ending.item, ⟨⟨[], ending⟩, true⟩) := by
        show ((some ending.item, ⟨⟨[], ending⟩, isLast ending.item⟩) : Option LexItem × Walk) = _
        rw [hlast]
      rw [answers, hnext, answers_of_finished]
      simp [Feed.untilStop]
  | cons item items ih =>
    cases n with
    | zero => simp [answers]
    | succ n =>
      cases item with
      | error e =>
        have hnext : (⟨⟨.error e :: items, ending⟩, false⟩ : Walk).next
            = (some (.error e), ⟨⟨items, ending⟩, true⟩) := rfl
        rw [answers, hnext, answers_of_finished]
        simp [Feed.untilStop]
      | ok l =>
        have hlast : isLast (.ok l) = false := by
          simpa [isLast] using heof l List.mem_cons_self
        have hnext : (⟨⟨.ok l :: items, ending⟩, false⟩ : Walk).next
            = (some (.ok l), ⟨⟨items, ending⟩, false⟩) := by
          show ((some (.ok l), ⟨⟨items, ending⟩, isLast (.ok l)⟩) : Option LexItem × Walk) = _
          rw [hlast]
        rw [answers, hnext, ih n fun l hl => heof l (List.mem_cons_of_mem _ hl)]
        simp [Feed.untilStop]

end Walk

/-- An iteration has lexemes, and behind them the end of the script or the first fault. Nothing
stands behind the first fault, because an iteration stops there. -/
theorem Feed.exists_last (ending : Ending) (items : List LexItem)
    (heof : ∀ l, .ok l ∈ items → l.token ≠ .eof) :
    ∃ (front : List Lexeme) (last : LexItem),
      untilStop ending items = front.map .ok ++ [last] ∧ (∀ l ∈ front, l.token ≠ .eof) ∧
        ∀ l, last = .ok l → l.token = .eof := by
  induction items with
  | nil =>
    refine ⟨[], ending.item, rfl, by simp, ?_⟩
    intro l hl
    cases ending with
    | eof p =>
      cases hl
      rfl
    | stuck c p => cases hl
  | cons item items ih =>
    cases item with
    | error e => exact ⟨[], .error e, rfl, by simp, fun l hl => nomatch hl⟩
    | ok l =>
      obtain ⟨front, last, hitems, hfront, hlast⟩ :=
        ih fun l hl => heof l (List.mem_cons_of_mem _ hl)
      refine ⟨l :: front, last, ?_, ?_, hlast⟩
      · rw [untilStop, hitems]
        rfl
      · exact List.forall_mem_cons.2 ⟨heof l List.mem_cons_self, hfront⟩

/-- Iterating over a script comes to an end and loses nothing. There are items such that the
iteration gives these and then nothing, one more than there are characters at most. All but the
last of them are lexemes other than the end of the script, and the last is that end or a fault.
The items stand for spans of the script, at the positions of their first characters; the spans
stand one behind the other, with nothing but trivia before each. -/
theorem walk_tiles (script : String) :
    ∃ items : List LexItem,
      (∀ n, Walk.answers n ⟨Feed.ofScript script, false⟩
        = (items.map some).take n ++ List.replicate (n - items.length) none) ∧
      items.length ≤ script.length + 1 ∧
      (∃ (front : List Lexeme) (last : LexItem), items = front.map .ok ++ [last] ∧
        (∀ l ∈ front, l.token ≠ .eof) ∧ ∀ l, last = .ok l → l.token = .eof) ∧
      ∃ spans, Tiles script.toList 0 spans ∧ List.Forall₂ (Marks script.toList) spans items := by
  have heof : ∀ l, .ok l ∈ (Feed.ofScript script).items → l.token ≠ .eof :=
    fun l hl => (Feed.spelled_of_mem_ofScript hl).ne_eof
  have hfeed : Feed.ofScript script = Feed.ofChars script.toList (.behind []) := rfl
  obtain ⟨spans, htiles, hmarks, hlength⟩ := exists_spans [] script.toList hfeed
  refine ⟨_, Walk.answers_eq heof, ?_, Feed.exists_last _ _ heof, spans, htiles, hmarks⟩
  rw [← String.length_toList, ← hmarks.length_eq]
  exact hlength

end Roster
