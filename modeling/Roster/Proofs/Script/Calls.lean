import Mathlib.Logic.Function.Iterate
import Roster.Proofs.Script.Climbing

/-!
# `Roster.Proofs.Script.Calls`: statements one by one

A reader can be asked for statements one by one, and goes on after an error. In a script without
lexical faults it neither loses nor repeats a lexeme, whatever its calls have returned.

* `upToEnd` and `pendingLexemes` say what is left to read: the current lexeme, the one in the buffer
  if there is one, and what comes after, up to the end of the script.
* `Parser.At` places a parser in front of lexemes, and `Parser.at_of_ok` and `Parser.at_of_error`
  say what one call takes from these: the lexemes of one statement, or everything before the lexeme
  that it refuses. The buffer of a descent does not show here, by `Descent.statement_eq`.
* `calls_resume` is the main result. Its induction is on the calls, and what it carries is that the
  reader stands in front of a suffix of the script.
-/

set_option autoImplicit false

namespace Roster

open Grammar (StatementTree)

/-! ### What is left to read -/

/-- Lexemes up to the first end of a script. -/
def upToEnd : List Lexeme → List Lexeme
  | [] => []
  | l :: ls => if l.token = .eof then [l] else l :: upToEnd ls

/-- Lexemes are counted up to the first end of the script, and what stands behind it is not. -/
theorem upToEnd_append {ls : List Lexeme} {l : Lexeme} (hls : ∀ l ∈ ls, l.token ≠ .eof)
    (hl : l.token = .eof) (more : List Lexeme) : upToEnd (ls ++ l :: more) = ls ++ [l] := by
  induction ls with
  | nil => exact if_pos hl
  | cons l' ls ih =>
    obtain ⟨hl', hls⟩ := List.forall_mem_cons.1 hls
    rw [List.cons_append, upToEnd, if_neg hl', ih hls, List.cons_append]

/-- The lexemes that a parser has not read: the current one and what comes after. -/
def Parser.pendingLexemes (p : Parser) : Except LexError (List Lexeme) :=
  p.ahead.lexemes.map fun ls => upToEnd (p.current :: ls)

/-- The lexemes that a reader has not read: the current one, the one in the buffer if there is one,
and what comes after. -/
def Descent.Reader.pendingLexemes (r : Descent.Reader) : Except LexError (List Lexeme) :=
  r.ahead.lexemes.map fun ls => upToEnd (r.current :: (r.peeked.toList ++ ls))

/-- A feed gives its first item and then what comes after it. -/
theorem Feed.lexemes_cons (l : Lexeme) (items : List LexItem) (ending : Ending) :
    lexemes ⟨.ok l :: items, ending⟩ = (lexemes ⟨items, ending⟩).map (l :: ·) := by
  show ((Except.ok l :: untilStop ending items).mapM id) = ((untilStop ending items).mapM id).map _
  rw [List.mapM_cons]
  cases (untilStop ending items).mapM id <;> rfl

/-- A reader has as much left to read as the parser it stands for. In the buffer the end of the
script is a lexeme, while for the parser it is what comes after all items; `upToEnd` does not tell
the two apart. -/
theorem Descent.Reader.Sound.pendingLexemes_parser {r : Descent.Reader} (h : r.Sound) :
    r.parser.pendingLexemes = r.pendingLexemes := by
  have hpeeked := h.peeked
  obtain ⟨current, _ | l, ahead⟩ := r
  · rfl
  · have hnext := hpeeked l rfl
    by_cases hl : l.token = .eof
    · -- The end of the script is in the buffer, and is what comes after as well.
      have hunread : (Reader.mk current (some l) ahead).unread = ahead := if_pos hl
      rw [hunread] at hnext
      obtain ⟨_ | ⟨item, items⟩, ending⟩ := ahead
      · cases ending <;> cases hnext
        simp only [Parser.pendingLexemes, pendingLexemes, parser, hunread]
        rfl
      · cases hnext
    · have hunread : (Reader.mk current (some l) ahead).unread
          = ⟨.ok l :: ahead.items, ahead.ending⟩ := if_neg hl
      simp only [Parser.pendingLexemes, pendingLexemes, parser, hunread, Feed.lexemes_cons]
      cases ahead.lexemes <;> rfl

/-! ### Parsers in a script -/

namespace Parser

/-- Whether a parser stands in front of lexemes behind which a script ends. -/
def At (p : Parser) (ls : List Lexeme) (pos : Position) : Prop :=
  Feed.next ⟨ls.map .ok, .eof pos⟩ = (.ok p.current, p.ahead)

variable {p p' : Parser} {ls : List Lexeme} {l : Lexeme} {pos : Position} {s : Statement}
  {e : ParseError}

/-- In front of nothing a parser has the end of the script as its current lexeme. -/
theorem at_nil_iff : p.At [] pos ↔ p = ⟨.atEnd pos, ⟨[], .eof pos⟩⟩ := by
  obtain ⟨current, ahead⟩ := p
  constructor
  · intro h
    cases h
    rfl
  · intro h
    cases h
    rfl

/-- In front of lexemes a parser has the first one as its current lexeme, and the others come
after. -/
theorem at_cons_iff : p.At (l :: ls) pos ↔ p = ⟨l, ⟨ls.map .ok, .eof pos⟩⟩ := by
  obtain ⟨current, ahead⟩ := p
  constructor
  · intro h
    obtain ⟨hl, hahead⟩ := Prod.mk.inj h
    obtain rfl : l = current := Except.ok.inj hl
    obtain rfl : (⟨ls.map .ok, .eof pos⟩ : Feed) = ahead := hahead
    rfl
  · intro h
    cases h
    rfl

/-- There is a parser in front of any lexemes. -/
theorem exists_at (ls : List Lexeme) (pos : Position) : ∃ p : Parser, p.At ls pos := by
  cases ls with
  | nil => exact ⟨_, at_nil_iff.2 rfl⟩
  | cons l ls => exact ⟨_, at_cons_iff.2 rfl⟩

/-- And there is only one. -/
theorem At.unique (h : p.At ls pos) (h' : p'.At ls pos) : p = p' := by
  cases ls with
  | nil => rw [at_nil_iff.1 h, at_nil_iff.1 h']
  | cons l ls => rw [at_cons_iff.1 h, at_cons_iff.1 h']

/-- A parser stands in front of its current lexeme. -/
theorem At.head?_eq (h : p.At ls pos) : (ls ++ [Lexeme.atEnd pos]).head? = some p.current := by
  cases ls with
  | nil =>
    obtain rfl := at_nil_iff.1 h
    rfl
  | cons l ls =>
    obtain rfl := at_cons_iff.1 h
    rfl

/-- A parser in front of lexemes has these left to read. -/
theorem At.pendingLexemes_eq (h : p.At ls pos) (heof : ∀ l ∈ ls, l.token ≠ .eof) :
    p.pendingLexemes = .ok (ls ++ [.atEnd pos]) := by
  have hfeed : ∀ ls' : List Lexeme,
      Feed.lexemes ⟨ls'.map .ok, .eof pos⟩ = .ok (ls' ++ [.atEnd pos]) :=
    fun ls' => Feed.lexemes_eq_ok_iff.2 ⟨ls', pos, rfl, rfl, rfl⟩
  cases ls with
  | nil =>
    obtain rfl := at_nil_iff.1 h
    exact congrArg (Except.map _) (hfeed [])
  | cons l ls =>
    obtain rfl := at_cons_iff.1 h
    rw [pendingLexemes, hfeed]
    exact congrArg Except.ok (upToEnd_append heof rfl [])

/-- A call that succeeds takes the lexemes of one statement. -/
theorem at_of_ok (h : p.At ls pos) (hrun : p.statement = (.ok s, p')) :
    ∃ (taken rest : List Lexeme) (t : StatementTree), ls = taken ++ rest ∧ p'.At rest pos ∧
      t.tokens = taken.map Lexeme.token ∧ t.statement = s := by
  obtain ⟨taken, rest, t, hitems, htokens, hstatement, hnext⟩ := statement_eq_ok_iff.1 hrun
  cases ls with
  | nil =>
    -- No statement starts with the end of the script.
    have hend := atEnd_eq_false_of_tokens htokens
    obtain rfl := at_nil_iff.1 h
    cases hend
  | cons l ls =>
    obtain rfl := at_cons_iff.1 h
    obtain ⟨front, back, rfl, hfront, rfl⟩ := List.map_eq_append_iff.1 hitems
    obtain rfl : front = taken := List.map_injective_iff.2 (fun _ _ => Except.ok.inj) hfront
    exact ⟨l :: front, back, t, rfl, hnext, htokens, hstatement⟩

/-- What is read from a stage on and fails has refused a lexeme and stands in front of it. The
induction is on the lexemes: those that fit are taken one by one, and there is no fault ahead that
could stop this. -/
theorem at_of_finish_error {stage : Stage} (h : p.At ls pos)
    (hrun : finish p.ahead.ending stage p.current p.ahead.items = (.error e, p')) :
    ∃ (taken rest : List Lexeme) (kinds : List TokenKind), ls = taken ++ rest ∧ p'.At rest pos ∧
      e = .unexpected p'.current kinds := by
  induction ls generalizing p stage with
  | nil =>
    obtain rfl := at_nil_iff.1 h
    rw [finish_of_step_eq_none (Stage.step_eof stage)] at hrun
    cases hrun
    exact ⟨[], [], _, rfl, h, rfl⟩
  | cons l ls ih =>
    obtain rfl := at_cons_iff.1 h
    cases hstep : stage.step l.token with
    | none =>
      rw [finish_of_step_eq_none hstep] at hrun
      cases hrun
      exact ⟨[], l :: ls, _, rfl, h, rfl⟩
    | some step =>
      -- There is no fault ahead, so a lexeme that fits is taken.
      obtain ⟨p₁, hnext⟩ := exists_at ls pos
      cases step with
      | statement s =>
        rw [finish_of_statement hstep hnext] at hrun
        cases hrun
      | stage next =>
        rw [finish_of_stage hstep hnext] at hrun
        obtain ⟨taken, rest, kinds, rfl, hat, he⟩ := ih hnext hrun
        exact ⟨l :: taken, rest, kinds, rfl, hat, he⟩

/-- A call that fails has refused a lexeme and stands in front of it. -/
theorem at_of_error (h : p.At ls pos) (hrun : p.statement = (.error e, p')) :
    ∃ (taken rest : List Lexeme) (kinds : List TokenKind), ls = taken ++ rest ∧ p'.At rest pos ∧
      e = .unexpected p'.current kinds :=
  at_of_finish_error h hrun

/-- Calls leave a parser in front of some of the lexemes, whatever they return. -/
theorem at_iterate (h : p.At ls pos) (n : Nat) :
    ∃ before rest, ls = before ++ rest ∧ ((fun p : Parser => p.statement.2)^[n] p).At rest pos := by
  induction n with
  | zero => exact ⟨[], ls, rfl, h⟩
  | succ n ih =>
    obtain ⟨before, rest, rfl, hat⟩ := ih
    rw [Function.iterate_succ_apply']
    rcases hrun : ((fun p : Parser => p.statement.2)^[n] p).statement with ⟨e | s, p'⟩
    · obtain ⟨taken, rest, -, rfl, hat', -⟩ := at_of_error hat hrun
      exact ⟨before ++ taken, rest, (List.append_assoc before taken rest).symm, hat'⟩
    · obtain ⟨taken, rest, -, rfl, hat', -, -⟩ := at_of_ok hat hrun
      exact ⟨before ++ taken, rest, (List.append_assoc before taken rest).symm, hat'⟩

end Parser

/-! ### Readers in a script -/

namespace Descent

/-- What a call does that returns `answer` where the lexemes `pending` are left to read, and leaves
the lexemes `left`. -/
structure Call (pending : List Lexeme) (answer : Except Stop Statement) (left : List Lexeme) :
    Prop where
  isSuffix : left <:+ pending
  /-- If it succeeds, it has taken the lexemes of one statement, its semicolon among them. -/
  of_ok : ∀ s, answer = .ok s → ∃ (taken : List Lexeme) (t : StatementTree),
    pending = taken ++ left ∧ t.tokens = taken.map Lexeme.token ∧ t.statement = s
  /-- If it fails, the lexeme that it reports is the first one left. -/
  of_error : ∀ stop, answer = .error stop → ∃ (l : Lexeme) (kinds : List TokenKind),
    stop = .fault (.unexpected l kinds) ∧ left.head? = some l

variable {r : Reader} {ls : List Lexeme} {pos : Position}

/-- Calls keep a reader sound, and move the parser on that it stands for. -/
theorem sound_iterate (h : r.Sound) (n : Nat) :
    ((fun r => (statement r).2)^[n] r).Sound ∧
      ((fun r => (statement r).2)^[n] r).parser
        = (fun p : Parser => p.statement.2)^[n] r.parser := by
  induction n with
  | zero => exact ⟨h, rfl⟩
  | succ n ih =>
    obtain ⟨hsound, hparser⟩ := ih
    obtain ⟨hnext, heq⟩ := statement_eq hsound
    rw [Function.iterate_succ_apply', Function.iterate_succ_apply', ← hparser]
    exact ⟨hnext, congrArg Prod.snd heq⟩

/-- One call in front of lexemes of a script. What is left of the pending lexemes is a suffix, as
all that a call does is to take some of them from the front. -/
theorem exists_call (hsound : r.Sound) (hat : r.parser.At ls pos)
    (heof : ∀ l ∈ ls, l.token ≠ .eof) :
    ∃ left, (statement r).2.pendingLexemes = .ok left ∧
      Call (ls ++ [.atEnd pos]) (statement r).1 left := by
  obtain ⟨hnext, heq⟩ := statement_eq hsound
  have hanswer : (statement r).1 = r.parser.statement.1.mapError .fault := congrArg Prod.fst heq
  have hparser : (statement r).2.parser = r.parser.statement.2 := congrArg Prod.snd heq
  -- All that is said of the call is said of the parser, which has no buffer.
  rw [← hnext.pendingLexemes_parser, hparser, hanswer]
  rcases hrun : r.parser.statement with ⟨e | s, p⟩
  · obtain ⟨taken, rest, kinds, rfl, hat', rfl⟩ := Parser.at_of_error hat hrun
    have hrest : ∀ l ∈ rest, l.token ≠ .eof := fun l hl => heof l (List.mem_append_right _ hl)
    refine ⟨_, hat'.pendingLexemes_eq hrest, ⟨taken, (List.append_assoc ..).symm⟩,
      fun s hs => (nomatch hs), ?_⟩
    intro stop hstop
    cases hstop
    exact ⟨_, kinds, rfl, hat'.head?_eq⟩
  · obtain ⟨taken, rest, t, rfl, hat', htokens, rfl⟩ := Parser.at_of_ok hat hrun
    have hrest : ∀ l ∈ rest, l.token ≠ .eof := fun l hl => heof l (List.mem_append_right _ hl)
    refine ⟨_, hat'.pendingLexemes_eq hrest, ⟨taken, (List.append_assoc ..).symm⟩, ?_,
      fun stop hstop => (nomatch hstop)⟩
    intro s hs
    cases hs
    exact ⟨taken, t, List.append_assoc .., htokens, rfl⟩

/-- Whether lexemes stand in a script before its end: none is that end, and numbers are numerals. -/
def Plain (ls : List Lexeme) : Prop :=
  ∀ l ∈ ls, l.token ≠ .eof ∧ ∀ n, l.token = .number n → Numeral.read? l.text = some n

/-- A reader and a parser at the start of a feed of such lexemes. -/
theorem exists_ofFeed {f : Feed} (hf : f.lexemes = .ok (ls ++ [.atEnd pos])) (hls : Plain ls) :
    ∃ r p, ofFeed f = .ok r ∧ Parser.ofFeed f = .ok p ∧ r.Sound ∧ r.parser = p ∧ p.At ls pos := by
  obtain ⟨ls', pos', hitems, hending, hsame⟩ := Feed.lexemes_eq_ok_iff.1 hf
  obtain ⟨rfl, hend⟩ := List.append_inj' hsame rfl
  obtain rfl : pos = pos' := congrArg Lexeme.position (List.singleton_inj.1 hend)
  -- The items of the feed are the lexemes but the last one, which is the end of the script.
  have hmem : ∀ l, .ok l ∈ f.items → l ∈ ls := by
    intro l hl
    rw [hitems] at hl
    obtain ⟨l', hl', heq⟩ := List.mem_map.1 hl
    cases heq
    exact hl'
  have hnumeric : f.Numeric := fun l hl => (hls l (hmem l hl)).2
  have heof : ∀ l, .ok l ∈ f.items → l.token ≠ .eof := fun l hl => (hls l (hmem l hl)).1
  obtain ⟨p, hat⟩ := Parser.exists_at ls pos
  have hfeed : f = ⟨ls.map .ok, .eof pos⟩ := by
    rw [← hitems, ← hending]
  have hnext : f.next = (.ok p.current, p.ahead) := by
    rw [hfeed]
    exact hat
  have hsound : Reader.Sound ⟨p.current, none, p.ahead⟩ :=
    (Reader.Sound.of_feed hnumeric heof p.current).after_next hnext p.current
  refine ⟨⟨p.current, none, p.ahead⟩, p, ?_, Parser.ofFeed_eq_ok_iff.2 hnext, hsound, rfl, hat⟩
  rw [ofFeed, nextLexeme_eq hnumeric, hnext]
  rfl

/-- A call returns what a reader does that starts at the lexemes that are left. -/
theorem exists_fresh (hsound : r.Sound) (hat : r.parser.At ls pos) (hls : Plain ls) {f : Feed}
    (hf : f.lexemes = .ok (ls ++ [.atEnd pos])) :
    ∃ fresh, ofFeed f = .ok fresh ∧ (statement fresh).1 = (statement r).1 ∧
      (statement fresh).2.pendingLexemes = (statement r).2.pendingLexemes := by
  obtain ⟨fresh, _, hfresh, -, hsound', rfl, hat'⟩ := exists_ofFeed hf hls
  obtain ⟨hnext, heq⟩ := statement_eq hsound
  obtain ⟨hnext', heq'⟩ := statement_eq hsound'
  -- Both stand for the same parser, whatever is in their buffers.
  rw [hat'.unique hat, ← heq] at heq'
  obtain ⟨hanswer, hparser⟩ := Prod.mk.inj heq'
  refine ⟨fresh, hfresh, hanswer, ?_⟩
  rw [← hnext'.pendingLexemes_parser, hparser, hnext.pendingLexemes_parser]

/-- The lexemes of a script before its end. -/
theorem plain_ofScript {script : String} (h : (Feed.ofScript script).items = ls.map .ok) :
    Plain ls := by
  intro l hl
  have hmem : .ok l ∈ (Feed.ofScript script).items := by
    rw [h]
    exact List.mem_map_of_mem hl
  exact ⟨(Feed.spelled_of_mem_ofScript hmem).ne_eof, Feed.numeric_ofScript script l hmem⟩

/-- A reader can go on after an error without losing or repeating a lexeme. Let a script have
lexemes, and let statements be asked for any number of times, whatever is returned. What is left to
read then is a suffix of the lexemes, the lexeme in the buffer counted. The next call takes the
lexemes of one statement if it succeeds, and leaves the lexeme first that it reports if it fails. It
returns what a reader does that starts at the lexemes that are left, and what the parser returns
that has no buffer. -/
theorem calls_resume {script : String} {ts : List Lexeme}
    (h : (Feed.ofScript script).lexemes = .ok ts) :
    ∃ r₀ p₀, ofFeed (Feed.ofScript script) = .ok r₀ ∧
      Parser.ofFeed (Feed.ofScript script) = .ok p₀ ∧
      ∀ n, let r := (fun r => (statement r).2)^[n] r₀
        let p := (fun p : Parser => p.statement.2)^[n] p₀
        ∃ pending left, pending <:+ ts ∧ pending ≠ [] ∧
          r.pendingLexemes = .ok pending ∧ p.pendingLexemes = .ok pending ∧
          (statement r).2.pendingLexemes = .ok left ∧ p.statement.2.pendingLexemes = .ok left ∧
          Call pending (statement r).1 left ∧
          p.statement.1.mapError .fault = (statement r).1 ∧
          ∀ f : Feed, f.lexemes = .ok pending → ∃ fresh, ofFeed f = .ok fresh ∧
            (statement fresh).1 = (statement r).1 ∧
            (statement fresh).2.pendingLexemes = .ok left := by
  obtain ⟨ls, pos, hitems, -, rfl⟩ := Feed.lexemes_eq_ok_iff.1 h
  have hls := plain_ofScript hitems
  obtain ⟨r₀, _, hr₀, hp₀, hsound₀, rfl, hat₀⟩ := exists_ofFeed h hls
  refine ⟨r₀, _, hr₀, hp₀, fun n => ?_⟩
  obtain ⟨hsound, hparser⟩ := sound_iterate hsound₀ n
  obtain ⟨before, rest, rfl, hat⟩ := Parser.at_iterate hat₀ n
  have hrest : Plain rest := fun l hl => hls l (List.mem_append_right _ hl)
  -- From here on only the reader behind the calls counts, and where its parser stands.
  rw [← hparser] at hat ⊢
  generalize (fun r => (statement r).2)^[n] r₀ = r at hsound hat ⊢
  obtain ⟨left, hleft, hcall⟩ := exists_call hsound hat fun l hl => (hrest l hl).1
  obtain ⟨hnext, heq⟩ := statement_eq hsound
  obtain ⟨hanswer, hparser⟩ := Prod.mk.inj heq
  have hpending := hat.pendingLexemes_eq fun l hl => (hrest l hl).1
  refine ⟨rest ++ [.atEnd pos], left, ⟨before, (List.append_assoc ..).symm⟩, by simp, ?_, hpending,
    hleft, ?_, hcall, hanswer.symm, fun f hf => ?_⟩
  · rw [← hsound.pendingLexemes_parser, hpending]
  · rw [← hleft, ← hnext.pendingLexemes_parser, hparser]
    rfl
  · rw [← hleft]
    exact exists_fresh hsound hat hrest hf

/-- In `print print;` the first call refuses the second word, and the second call starts with it. -/
theorem calls_resume_behind_print :
    let script := "print print;"
    let ts : List Lexeme := [⟨.keyword .print, "print", ⟨1, 1⟩⟩, ⟨.keyword .print, "print", ⟨1, 7⟩⟩,
      ⟨.semicolon, ";", ⟨1, 12⟩⟩, .atEnd ⟨1, 13⟩]
    (Feed.ofScript script).lexemes = .ok ts ∧
      ∃ r₀, ofFeed (Feed.ofScript script) = .ok r₀ ∧
        ∀ n, ∃ pending left, pending <:+ ts ∧
          ((fun r => (statement r).2)^[n] r₀).pendingLexemes = .ok pending ∧
          Call pending (statement ((fun r => (statement r).2)^[n] r₀)).1 left := by
  intro script ts
  have hfirst : Feed.ofScript "print print;" =
      let f := Feed.ofChars " print;".toList ⟨1, 6⟩
      ⟨.ok ⟨.keyword .print, "print", ⟨1, 1⟩⟩ :: f.items, f.ending⟩ := by
    rw [Feed.ofScript, Feed.ofChars_eq]
    rfl
  have hsecond : Feed.ofChars " print;".toList ⟨1, 6⟩ =
      let f := Feed.ofChars [';'] ⟨1, 12⟩
      ⟨.ok ⟨.keyword .print, "print", ⟨1, 7⟩⟩ :: f.items, f.ending⟩ := by
    rw [Feed.ofChars_eq]
    rfl
  -- The script has two words, a semicolon and its end.
  have hts : (Feed.ofScript script).lexemes = .ok ts := by
    rw [hfirst, hsecond, Feed.ofChars_semicolon, Feed.ofChars_nil]
    rfl
  obtain ⟨r₀, p₀, hr₀, -, hcalls⟩ := calls_resume hts
  refine ⟨hts, r₀, hr₀, fun n => ?_⟩
  obtain ⟨pending, left, hsuffix, -, hpending, -, -, -, hcall, -⟩ := hcalls n
  exact ⟨pending, left, hsuffix, hpending, hcall⟩

end Descent

end Roster
