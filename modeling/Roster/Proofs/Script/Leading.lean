import Roster.Proofs.Script.Descent

/-!
# `Roster.Proofs.Script.Leading`: readings that follow the stages

Reading by descent is compared with the stages of statements. A reader with a buffer stands for a
`Parser` without one (`Reader.parser`), `Reader.rest` is what that parser reads from a stage on, and
`Leads` says of a reading that it does to the reader what some steps of the stages do: if it stops,
then as reading from the stage on does and with the same left to read, and otherwise what is read
from another stage on is still the same. So readings are put together by `Leads.bind`, each from the
stage the one before it has led to.

There is one lemma for each move. `advance_apply` and `fill_apply` are the ones they rest on: both
come to the next lexeme of what has not been read (`Reader.unread`), whether it is in the buffer or
not, and `Reader.Sound` keeps the buffer in step. A move that could meet a case taken to be
impossible has a lemma that excludes it: `leads_peek` says that a lexeme that has been looked at is
there, `leads_expectString` and `leads_expectNumber` that a lexeme of a kind has its payload. Moving
on leaves less to read, which is what bounds the loops.
-/

set_option autoImplicit false

namespace Roster

/-! ### The stages, one lexeme at a time -/

namespace Parser

variable {f ahead : Feed} {stage next : Stage} {current l : Lexeme} {s : Statement}

/-- A lexeme that does not fit is refused and stays. -/
theorem finish_of_step_eq_none (h : stage.step current.token = none) (f : Feed) :
    finish f.ending stage current f.items
      = (.error (.unexpected current stage.expected), ⟨current, f⟩) := by
  obtain ⟨_ | ⟨_ | _, _⟩, _⟩ := f <;> simp [finish, refuse, h]

/-- A fault behind a lexeme that fits is reported. The lexeme stays, the fault does not. -/
theorem finish_of_next_eq_error {step : Step} {e : LexError}
    (h : stage.step current.token = some step) (hnext : f.next = (.error e, ahead)) :
    finish f.ending stage current f.items = (.error (.lexical e), ⟨current, ahead⟩) := by
  obtain ⟨_ | ⟨_ | _, _⟩, _ | _⟩ := f <;> cases hnext <;> simp [finish, h]

/-- Within a statement a lexeme that fits moves the reader on. -/
theorem finish_of_stage (h : stage.step current.token = some (.stage next))
    (hnext : f.next = (.ok l, ahead)) :
    finish f.ending stage current f.items = finish ahead.ending next l ahead.items := by
  obtain ⟨_ | ⟨_ | _, _⟩, p | _⟩ := f <;> cases hnext
  · -- At the end of the script every stage refuses.
    have hend : next.step (Lexeme.atEnd p).token = none := Stage.step_eof next
    simp [finish, h, hend, refuse]
  all_goals simp [finish, h]

/-- A lexeme that ends the statement is read, and the next one is current. -/
theorem finish_of_statement (h : stage.step current.token = some (.statement s))
    (hnext : f.next = (.ok l, ahead)) :
    finish f.ending stage current f.items = (.ok s, ⟨l, ahead⟩) := by
  obtain ⟨_ | ⟨_ | _, _⟩, _ | _⟩ := f <;> cases hnext <;> simp [finish, h]

/-- Two stages that take the current token alike go on alike. -/
theorem finish_congr (hstep : stage.step current.token = next.step current.token)
    (hexpected : next.step current.token = none → stage.expected = next.expected) (f : Feed) :
    finish f.ending stage current f.items = finish f.ending next current f.items := by
  cases hnext : next.step current.token with
  | none =>
    rw [finish_of_step_eq_none (hstep.trans hnext), finish_of_step_eq_none hnext, hexpected hnext]
  | some step =>
    obtain ⟨_ | ⟨_ | _, _⟩, _ | _⟩ := f <;> cases step <;> simp only [finish, hstep, hnext]

end Parser

namespace Descent.Reader

/-! ### Readers and parsers -/

/-- What has not been read behind the current lexeme. The end of the script is no item of it, so it
counts for nothing in the buffer. -/
def unread (r : Reader) : Feed :=
  match r.peeked with
  | none => r.ahead
  | some l => if l.token = .eof then r.ahead else ⟨.ok l :: r.ahead.items, r.ahead.ending⟩

/-- The parser that has read as much. -/
def parser (r : Reader) : Parser := ⟨r.current, r.unread⟩

/-- Whether a reader stands in a script: the buffer holds what comes next, and numbers and the end
of the script are as in the feeds of scripts. -/
structure Sound (r : Reader) : Prop where
  numeric : r.ahead.Numeric
  ne_eof : ∀ l, .ok l ∈ r.ahead.items → l.token ≠ .eof
  peeked : ∀ l, r.peeked = some l → r.unread.next = (.ok l, r.ahead)

/-- What is read from a stage on, and the parser that is left. -/
def rest (r : Reader) (stage : Stage) : Except Stop Statement × Parser :=
  Prod.map (Except.mapError .fault) id
    (Parser.finish r.unread.ending stage r.current r.unread.items)

variable {r : Reader} {stage next : Stage}

/-- A lexeme that does not fit is refused. -/
theorem rest_of_step_eq_none (h : stage.step r.current.token = none) :
    r.rest stage = (.error (.fault (.unexpected r.current stage.expected)), r.parser) := by
  rw [rest, Parser.finish_of_step_eq_none h]
  rfl

/-- Two stages that take the current token alike go on alike. -/
theorem rest_congr (hstep : stage.step r.current.token = next.step r.current.token)
    (hexpected : next.step r.current.token = none → stage.expected = next.expected) :
    r.rest stage = r.rest next := by
  rw [rest, Parser.finish_congr hstep hexpected]
  rfl

/-- Reading from the start of a statement is reading one. -/
theorem rest_start : r.rest .start = Prod.map (Except.mapError .fault) id r.parser.statement := rfl

namespace Sound

/-- Without a buffer what has not been read is what comes after. -/
theorem of_feed {f : Feed} (hnumeric : f.Numeric) (heof : ∀ l, .ok l ∈ f.items → l.token ≠ .eof)
    (l : Lexeme) : Sound ⟨l, none, f⟩ :=
  ⟨hnumeric, heof, fun _ h => nomatch h⟩

/-- The lexemes that have not been read are not the end of the script. -/
theorem ne_eof_unread (h : r.Sound) : ∀ l, .ok l ∈ r.unread.items → l.token ≠ .eof := by
  intro l hl
  unfold unread at hl
  split at hl
  · exact h.ne_eof l hl
  · split at hl
    · exact h.ne_eof l hl
    · rename_i hne
      rcases List.mem_cons.1 hl with heq | hl
      · cases heq
        exact hne
      · exact h.ne_eof l hl

/-- What comes after the next lexeme, or after a fault, is as in a script again. A lexeme in the
buffer came from the feed when it was put there, so the feed is behind it already. -/
theorem after_next {item : LexItem} {ahead : Feed} (h : r.Sound)
    (hnext : r.unread.next = (item, ahead)) (l : Lexeme) : Sound ⟨l, none, ahead⟩ := by
  -- With a lexeme in the buffer that is the next one, so nothing of the feed is taken.
  have hpeeked : ∀ l, r.peeked = some l → ahead = r.ahead := by
    intro l hl
    rw [h.peeked l hl] at hnext
    cases hnext
    rfl
  cases hbuffer : r.peeked with
  | some l' =>
    obtain rfl := hpeeked l' hbuffer
    exact of_feed h.numeric h.ne_eof l
  | none =>
    have hunread : r.unread = r.ahead := by
      rw [unread, hbuffer]
    rw [hunread] at hnext
    refine of_feed (h.numeric.next hnext) (fun l hl => h.ne_eof l ?_) l
    generalize r.ahead = f at hnext ⊢
    obtain ⟨_ | ⟨_, _⟩, _⟩ := f <;> cases hnext
    · exact hl
    · exact List.mem_cons_of_mem _ hl

/-- A lexeme that is put into the buffer is still to be read. -/
theorem unread_of_next {l : Lexeme} {ahead : Feed} (h : r.Sound)
    (hnext : r.unread.next = (.ok l, ahead)) :
    (Reader.mk r.current (some l) ahead).unread = r.unread := by
  have heof := h.ne_eof_unread
  generalize r.unread = f at hnext heof ⊢
  obtain ⟨items, ending⟩ := f
  rw [unread]
  cases items with
  | nil =>
    cases ending <;> cases hnext
    exact if_pos rfl
  | cons item items =>
    cases hnext
    exact if_neg (heof l List.mem_cons_self)

/-- What is left to read is the current lexeme and what has not been read behind it. -/
theorem pending_eq (h : r.Sound) : r.pending = weight r.current + r.unread.items.length := by
  have hpeeked := h.peeked
  obtain ⟨current, _ | l, ahead⟩ := r
  · simp [pending, unread]
  · have hnext := hpeeked l rfl
    by_cases hl : l.token = .eof
    · simp [pending, unread, weight, hl]
    · simp [pending, unread, weight, hl]
      omega

end Sound

/-- Behind a number `and` is a connective unless another number follows. The stage of a number keeps
both possibilities open, and they differ only if a number stands behind `and`. -/
theorem rest_number {joint : Joint} {column : String} {op : Operator} {n : Double} {l : Lexeme}
    (h : r.Sound) (hcurrent : r.current.token = .keyword .and) (hpeeked : r.peeked = some l)
    (hl : l.token.kind ≠ .number) :
    r.rest (.number joint column op n)
      = r.rest (.chain (joint.extend ⟨column, op, .number n⟩)) := by
  have hnumber : Stage.step (.number joint column op n) r.current.token
      = some (.stage (.numberAnd joint column op n)) := by
    rw [hcurrent]
    rfl
  have hchain : Stage.step (.chain (joint.extend ⟨column, op, .number n⟩)) r.current.token
      = some (.stage (.repeatable (.after (joint.extend ⟨column, op, .number n⟩) .and))) := by
    rw [hcurrent]
    rfl
  have hnext := h.peeked l hpeeked
  -- Behind `and` the two stages differ at a number alone.
  have hstep : Stage.step (.numberAnd joint column op n) l.token
      = Stage.step (.repeatable (.after (joint.extend ⟨column, op, .number n⟩) .and)) l.token := by
    rcases hl' : l.token with w | _ | m | _ | _ | _
    · cases w <;> rfl
    · rfl
    · exact absurd (congrArg Token.kind hl') hl
    all_goals rfl
  rw [rest, rest, Parser.finish_of_stage hnumber hnext, Parser.finish_of_stage hchain hnext,
    Parser.finish_congr hstep fun _ => rfl]

/-- Behind a number with no `and` nothing of the literal is left. -/
theorem rest_number_of_ne_and {joint : Joint} {column : String} {op : Operator} {n : Double}
    (hcurrent : r.current.token ≠ .keyword .and) :
    r.rest (.number joint column op n)
      = r.rest (.chain (joint.extend ⟨column, op, .number n⟩)) := by
  refine rest_congr ?_ fun _ => rfl
  rcases htoken : r.current.token with w | _ | _ | _ | _ | _
  · cases w <;> first | rfl | exact absurd htoken hcurrent
  all_goals rfl

end Descent.Reader

namespace Descent

/-! ### Readings and stages -/

/-- Whether a reading does to a reader what some steps from a stage on do. If it stops, so does
reading from the stage on, and what is left is the same. Otherwise nothing has changed about what is
read, only the stage is another one. -/
def Leads {α : Type} (stage : Stage) (r : Reader) (m : Reading α)
    (post : α → Reader → Stage → Prop) : Prop :=
  match m r with
  | (.error stop, r') => r'.Sound ∧ r.rest stage = (.error stop, r'.parser)
  | (.ok a, r') => r'.Sound ∧ r'.pending ≤ r.pending ∧
    ∃ next, post a r' next ∧ r.rest stage = r'.rest next

namespace Leads

variable {α β : Type} {stage next : Stage} {r : Reader} {m : Reading α} {f : α → Reading β}
  {mid post : α → Reader → Stage → Prop} {post' : β → Reader → Stage → Prop}

/-- A reading that only gives something leaves the stage where it is. -/
theorem pure {a : α} (h : r.Sound) (ha : post a r stage) : Leads stage r (Pure.pure a) post :=
  ⟨h, Nat.le_refl _, stage, ha, rfl⟩

/-- One reading after the other. -/
theorem bind (hm : Leads stage r m mid)
    (hf : ∀ a r' next, r'.Sound → r'.pending ≤ r.pending → mid a r' next →
      Leads next r' (f a) post') :
    Leads stage r (m >>= f) post' := by
  unfold Leads at hm ⊢
  rw [bind_apply]
  rcases hmr : m r with ⟨stop | a, r'⟩
  · -- If the first reading stops, the second one is not begun.
    rw [hmr] at hm
    exact hm
  · rw [hmr] at hm
    obtain ⟨hsound, hpending, next, hmid, hrest⟩ := hm
    have hfa := hf a r' next hsound hpending hmid
    unfold Leads at hfa
    dsimp only
    rw [hrest]
    rcases hfr : f a r' with ⟨stop | b, r''⟩
    · rw [hfr] at hfa
      exact hfa
    · rw [hfr] at hfa
      exact ⟨hfa.1, hfa.2.1.trans hpending, hfa.2.2⟩

/-- Reading the current token changes nothing. -/
theorem token {f : Token → Reading β} (h : Leads stage r (f r.current.token) post') :
    Leads stage r (token >>= f) post' := h

/-- What is said of a reading is said of what it gives. -/
theorem of_run (h : Leads stage r m post) :
    Leads stage r m fun a r' s => m r = (.ok a, r') ∧ post a r' s := by
  unfold Leads at h ⊢
  split at h
  · exact h
  · rename_i heq
    obtain ⟨hsound, hpending, next, hpost, hrest⟩ := h
    exact ⟨hsound, hpending, next, ⟨heq, hpost⟩, hrest⟩

/-- Only what a reading does to this reader counts. -/
theorem congr {m' : Reading α} (heq : m r = m' r) (h : Leads stage r m' post) :
    Leads stage r m post := by
  unfold Leads at h ⊢
  rwa [heq]

/-- Reading goes on alike from a stage from which the same is read. -/
theorem of_rest_eq (hrest : r.rest stage = r.rest next) (h : Leads next r m post) :
    Leads stage r m post := by
  unfold Leads at h ⊢
  rwa [hrest]

/-- Looking at the reader changes nothing. -/
theorem get {f : Reader → Reading β} (h : Leads stage r (f r) post') :
    Leads stage r (MonadState.get >>= f) post' := h

/-- What a reading leads to may be said in weaker words. -/
theorem imp {post post' : α → Reader → Stage → Prop} (h : Leads stage r m post)
    (himp : ∀ a r' next, post a r' next → post' a r' next) : Leads stage r m post' := by
  unfold Leads at h ⊢
  split at h
  · exact h
  · obtain ⟨hsound, hpending, next, hpost, hrest⟩ := h
    exact ⟨hsound, hpending, next, himp _ _ _ hpost, hrest⟩

end Leads

/-- A lexeme that does not fit stops a reading that expects what the stage does. -/
theorem leads_unexpected {α : Type} {stage : Stage} {r : Reader} {kinds : List TokenKind}
    {post : α → Reader → Stage → Prop} (h : r.Sound) (hstep : stage.step r.current.token = none)
    (hkinds : stage.expected = kinds) : Leads stage r (unexpected kinds) post := by
  subst hkinds
  exact ⟨h, Reader.rest_of_step_eq_none hstep⟩

/-! ### Moves -/

/-- A lexeme counts as one at most. -/
theorem weight_le_one (l : Lexeme) : weight l ≤ 1 := by
  unfold weight
  split <;> omega

/-- A lexeme of a feed weighs no more than what it was among. -/
theorem weight_next_le {f ahead : Feed} {l : Lexeme} (hnext : f.next = (.ok l, ahead)) :
    weight l + ahead.items.length ≤ f.items.length := by
  obtain ⟨_ | ⟨item, items⟩, ending⟩ := f
  · cases ending <;> cases hnext
    exact Nat.le_refl 0
  · cases hnext
    have hl := weight_le_one l
    simp only [List.length_cons]
    omega

section
variable {stage next : Stage} {r : Reader}

/-- With nothing in the buffer the next lexeme of the feed is the next one that has not been
read. -/
theorem nextLexeme_of_peeked_eq_none (h : r.Sound) (hbuffer : r.peeked = none) :
    r.unread = r.ahead ∧ nextLexeme r.ahead = match r.unread.next with
      | (.ok l, ahead) => .ok (l, ahead)
      | (.error e, _) => .error (.fault (.lexical e)) := by
  have hunread : r.unread = r.ahead := by
    rw [Reader.unread, hbuffer]
  rw [hunread]
  exact ⟨rfl, nextLexeme_eq h.numeric⟩

/-- Moving on comes to the next lexeme that has not been read, whether it is in the buffer or
not. -/
theorem advance_apply (h : r.Sound) :
    advance r = match r.unread.next with
      | (.ok l, ahead) => (.ok r.current, ⟨l, none, ahead⟩)
      | (.error e, ahead) => (.error (.fault (.lexical e)), ⟨r.current, none, ahead⟩) := by
  cases hbuffer : r.peeked with
  | none =>
    obtain ⟨hunread, hnext⟩ := nextLexeme_of_peeked_eq_none h hbuffer
    rw [advance, hbuffer, hnext, ← hunread]
    rcases r.unread.next with ⟨_ | _, _⟩ <;> rfl
  | some l => rw [advance, hbuffer, h.peeked l hbuffer]

/-- Looking at the next lexeme puts it into the buffer. -/
theorem fill_apply (h : r.Sound) :
    fill r = match r.unread.next with
      | (.ok l, ahead) => (.ok (), ⟨r.current, some l, ahead⟩)
      | (.error e, ahead) => (.error (.fault (.lexical e)), ⟨r.current, none, ahead⟩) := by
  cases hbuffer : r.peeked with
  | none =>
    obtain ⟨hunread, hnext⟩ := nextLexeme_of_peeked_eq_none h hbuffer
    rw [fill, hbuffer, hnext, ← hunread]
    rcases r.unread.next with ⟨_ | _, _⟩ <;> rfl
  | some l =>
    rw [fill, hbuffer, h.peeked l hbuffer]
    obtain ⟨_, _, _⟩ := r
    cases hbuffer
    rfl

/-- What moving on does. It stops at a fault, as every stage does that takes the current token.
Otherwise the current token has been read, whether it goes on with a statement or ends one. -/
theorem advance_cases (h : r.Sound) :
    (∃ stop r', advance r = (.error stop, r') ∧ r'.Sound ∧
      ∀ {stage step}, stage.step r.current.token = some step →
        r.rest stage = (.error stop, r'.parser)) ∨
    ∃ r', advance r = (.ok r.current, r') ∧ r'.Sound ∧
      (r.current.token ≠ .eof → r'.pending < r.pending) ∧
      (∀ l, r.peeked = some l → r'.current = l) ∧
      (∀ {stage next}, stage.step r.current.token = some (.stage next) →
        r.rest stage = r'.rest next) ∧
      ∀ {stage s}, stage.step r.current.token = some (.statement s) →
        r.rest stage = (.ok s, r'.parser) := by
  have hadvance := advance_apply h
  rcases hnext : r.unread.next with ⟨e | l, ahead⟩
  · rw [hnext] at hadvance
    refine .inl ⟨_, _, hadvance, h.after_next hnext _, fun hstep => ?_⟩
    rw [Reader.rest, Parser.finish_of_next_eq_error hstep hnext]
    rfl
  · rw [hnext] at hadvance
    have hsound := h.after_next hnext l
    refine .inr ⟨_, hadvance, hsound, fun hcurrent => ?_, fun l' hl' => ?_, fun hstep => ?_,
      fun hstep => ?_⟩
    · -- The current lexeme is gone, and the next one has only been made current.
      have hone : weight r.current = 1 := if_neg hcurrent
      have hle := weight_next_le hnext
      have hleft : (Reader.mk l none ahead).unread = ahead := rfl
      rw [hsound.pending_eq, h.pending_eq, hleft]
      dsimp only
      omega
    · rw [h.peeked l' hl'] at hnext
      cases hnext
      rfl
    · rw [Reader.rest, Parser.finish_of_stage hstep hnext]
      rfl
    · rw [Reader.rest, Parser.finish_of_statement hstep hnext]
      rfl

/-- Moving on takes the current token. A lexeme that has been looked at is the current one then. -/
theorem leads_advance (h : r.Sound) (hstep : stage.step r.current.token = some (.stage next)) :
    Leads stage r advance fun l r' s => l = r.current ∧ r'.pending < r.pending ∧
      (∀ l, r.peeked = some l → r'.current = l) ∧ s = next := by
  have hcurrent : r.current.token ≠ .eof := by
    intro heof
    rw [heof, Stage.step_eof] at hstep
    cases hstep
  rcases advance_cases h with ⟨stop, r', heq, hsound, hrest⟩ |
    ⟨r', heq, hsound, hpending, hpeeked, hrest, -⟩
  · rw [Leads, heq]
    exact ⟨hsound, hrest hstep⟩
  · rw [Leads, heq]
    exact ⟨hsound, (hpending hcurrent).le, next, ⟨rfl, hpending hcurrent, hpeeked, rfl⟩,
      hrest hstep⟩

/-- A token that has been recognised is moved over. -/
theorem leads_taken {t : Token} (h : r.Sound) (hcurrent : r.current.token = t)
    (hstep : stage.step t = some (.stage next)) :
    Leads stage r advance fun _ _ s => s = next := by
  subst hcurrent
  refine (leads_advance h hstep).imp ?_
  rintro l r' s ⟨-, -, -, rfl⟩
  rfl

/-- Looking at the lexeme behind the current one changes nothing, and there is such a lexeme. The
reader has a lexeme in its buffer now, so the case in which it has none is not reached. -/
theorem leads_peek (h : r.Sound) (hstep : stage.step r.current.token = some (.stage next)) :
    Leads stage r peek fun t r' s => r'.current = r.current ∧
      (∃ l, r'.peeked = some l ∧ l.token = t) ∧ s = stage := by
  have hfill := fill_apply h
  rcases hnext : r.unread.next with ⟨e | l, ahead⟩ <;> rw [hnext] at hfill
  · have hpeek : peek r = (.error (.fault (.lexical e)), ⟨r.current, none, ahead⟩) := by
      rw [peek, bind_apply, hfill]
    rw [Leads, hpeek]
    refine ⟨h.after_next hnext _, ?_⟩
    rw [Reader.rest, Parser.finish_of_next_eq_error hstep hnext]
    rfl
  · have hpeek : peek r = (.ok l.token, ⟨r.current, some l, ahead⟩) := by
      rw [peek, bind_apply, hfill]
      rfl
    rw [Leads, hpeek]
    -- The reader has the lexeme in its buffer now, and nothing else has changed.
    have hunread := h.unread_of_next hnext
    have hfeed := h.after_next hnext l
    have hsound : (Reader.mk r.current (some l) ahead).Sound := by
      refine ⟨hfeed.numeric, hfeed.ne_eof, ?_⟩
      rintro l' hl'
      cases hl'
      rw [hunread, hnext]
    refine ⟨hsound, ?_, stage, ⟨rfl, ⟨l, rfl, rfl⟩, rfl⟩, ?_⟩
    · rw [hsound.pending_eq, h.pending_eq, hunread]
    · rw [Reader.rest, Reader.rest, hunread]

/-- A stage that takes one kind of tokens takes no other. -/
theorem step_eq_none {kind : TokenKind} {t : Token} (hexpected : stage.expected = [kind])
    (hpassed : stage.passedOver = []) (ht : t.kind ≠ kind) : stage.step t = none := by
  have hsome := stage.step_isSome t
  rw [hexpected, hpassed] at hsome
  simpa [ht] using hsome

/-- A token of a kind, or the one error there is if the stage takes no other kind. -/
theorem leads_expect {kind : TokenKind} (h : r.Sound)
    (htake : r.current.token.kind = kind →
      ∃ next, stage.step r.current.token = some (.stage next))
    (hrefuse : r.current.token.kind ≠ kind →
      stage.step r.current.token = none ∧ stage.expected = [kind]) :
    Leads stage r (expect kind) fun l _ s =>
      l.token.kind = kind ∧ stage.step l.token = some (.stage s) := by
  show Leads stage r ((if r.current.token.kind = kind then advance else unexpected [kind])) _
  split
  · rename_i hkind
    obtain ⟨next, hnext⟩ := htake hkind
    refine (leads_advance h hnext).imp ?_
    rintro l r' s ⟨rfl, -, -, rfl⟩
    exact ⟨hkind, hnext⟩
  · rename_i hkind
    exact leads_unexpected h (hrefuse hkind).1 (hrefuse hkind).2

/-- A word that a stage takes alone. -/
theorem leads_word {w : Keyword} (h : r.Sound)
    (hexpected : stage.expected = [.keyword w]) (hpassed : stage.passedOver = [])
    (htake : stage.step (.keyword w) = some (.stage next)) :
    Leads stage r (expect (.keyword w)) fun _ _ s => s = next := by
  have hword : ∀ {t : Token}, t.kind = .keyword w → t = .keyword w := by
    intro t hkind
    cases t <;> cases hkind
    rfl
  refine (leads_expect h (fun hkind => ?_) fun hkind => ?_).imp ?_
  · rw [hword hkind]
    exact ⟨next, htake⟩
  · exact ⟨step_eq_none hexpected hpassed hkind, hexpected⟩
  · rintro l r' s ⟨hkind, hstep⟩
    rw [hword hkind, htake] at hstep
    cases hstep
    rfl

/-- The string behind a stage that takes strings. -/
theorem leads_expectString {next : String → Stage} (h : r.Sound)
    (htake : ∀ s, stage.step (.string s) = some (.stage (next s)))
    (hrefuse : r.current.token.kind ≠ .string →
      stage.step r.current.token = none ∧ stage.expected = [.string]) :
    Leads stage r expectString fun s _ st => st = next s := by
  refine (leads_expect h (fun hkind => ?_) hrefuse).bind ?_
  · cases htoken : r.current.token <;> rw [htoken] at hkind <;> cases hkind
    exact ⟨_, htake _⟩
  · rintro l r' st hsound - ⟨hkind, hstep⟩
    -- The kind has been checked, so there is no other case.
    cases htoken : l.token <;> rw [htoken] at hkind hstep <;> cases hkind
    rw [htake] at hstep
    cases hstep
    exact .pure hsound rfl

/-- The string behind a stage that takes strings alone. -/
theorem leads_string {next : String → Stage} (h : r.Sound)
    (hexpected : stage.expected = [.string]) (hpassed : stage.passedOver = [])
    (htake : ∀ s, stage.step (.string s) = some (.stage (next s))) :
    Leads stage r expectString fun s _ st => st = next s :=
  leads_expectString h htake fun hkind => ⟨step_eq_none hexpected hpassed hkind, hexpected⟩

/-- The number behind a stage, at a lexeme that is one. -/
theorem leads_expectNumber {next : Double → Stage} (h : r.Sound)
    (htake : ∀ n, stage.step (.number n) = some (.stage (next n)))
    (hcurrent : r.current.token.kind = .number) :
    Leads stage r expectNumber fun n _ st => st = next n := by
  refine (leads_expect h (fun hkind => ?_) fun hkind => absurd hcurrent hkind).bind ?_
  · cases htoken : r.current.token <;> rw [htoken] at hkind <;> cases hkind
    exact ⟨_, htake _⟩
  · rintro l r' st hsound - ⟨hkind, hstep⟩
    cases htoken : l.token <;> rw [htoken] at hkind hstep <;> cases hkind
    rw [htake] at hstep
    cases hstep
    exact .pure hsound rfl

/-- One of the tokens that a stage takes. -/
theorem leads_choice {α : Type} {ofToken? : Token → Option α} {kinds : List TokenKind}
    {next : α → Stage} (h : r.Sound)
    (hstep : ∀ t, stage.step t = (ofToken? t).map fun a => .stage (next a))
    (hkinds : stage.expected = kinds) :
    Leads stage r (choice ofToken? kinds) fun a _ s => s = next a := by
  have hcurrent := hstep r.current.token
  refine .token ?_
  split
  · rename_i hnone
    rw [hnone] at hcurrent
    exact leads_unexpected h hcurrent hkinds
  · rename_i a ha
    rw [ha] at hcurrent
    refine (leads_advance h hcurrent).bind ?_
    rintro _ r' s hsound - ⟨-, -, -, rfl⟩
    exact .pure hsound rfl

end

end Descent

end Roster
