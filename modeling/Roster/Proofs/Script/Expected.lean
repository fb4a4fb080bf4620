import Roster.Proofs.Script.Refusal

/-!
# `Roster.Proofs.Script.Expected`: what an error says could have stood there

A syntax error lists kinds of tokens. `Acceptable` says which kinds a program can go on with, the
end of the script among them, and `expected_of_unexpected` compares the two. Every kind that is
listed is acceptable, and it is told which acceptable ones are not listed (`Unlisted`):

- behind a statement, the end of the script;
- behind `and` or `or`, the word `filter`;
- behind a number and `and`, another number, unless the first number ends a range.

`step_isSome` puts down for each stage which kinds it takes and does not list. The last tokens
that have been read tell the stage as far as it matters here, and `unlisted_iff` is the result of
going back from a stage to them.
-/

set_option autoImplicit false

namespace Roster

/-- Whether a program can go on with a token of a kind. Behind the end of the script nothing
follows. -/
def Acceptable (before : List Token) (k : TokenKind) : Prop :=
  ∃ (t : Token) (more : List Token), t.kind = k ∧ Accepted (before ++ t :: more) ∧
    (k = .eof → more = [])

/-- The kinds that are not listed as expected behind viable tokens, though a program can go on with
them. -/
inductive Unlisted : List Token → TokenKind → Prop
  | eof (before : List Token) : Unlisted (before ++ [.semicolon]) .eof
  | filter (before : List Token) (k : Connective) :
    Unlisted (before ++ [k.token]) (.keyword .filter)
  /-- The number stands behind an operator, so it can be the first one of a range. -/
  | number (before : List Token) {o : Token} (n : Double) (h : o ≠ .keyword .and) :
    Unlisted (before ++ [o] ++ [.number n] ++ [.keyword .and]) .number

namespace Stage

/-- The kinds that a stage takes and does not list. -/
def passedOver : Stage → List TokenKind
  | repeatable _ => [.keyword .filter]
  | numberAnd .. => [.number, .keyword .filter]
  | _ => []

/-- A stage takes the tokens of the kinds that it lists, and of those it does not. -/
theorem step_isSome (stage : Stage) (t : Token) :
    (stage.step t).isSome = decide (t.kind ∈ stage.expected ++ stage.passedOver) := by
  -- Both sides are decided by the stage and the kind of the token.
  cases stage <;> rcases t with w | r | n | s | _ | _ <;> (try cases w) <;> (try cases r) <;> rfl

/-- No kind is both listed and not. -/
theorem notMem_passedOver {stage : Stage} {k : TokenKind} (h : k ∈ stage.expected) :
    k ∉ stage.passedOver := by
  revert k
  cases stage <;> simp [expected, passedOver]

/-- The end of the script is neither. -/
theorem eof_notMem_expected (stage : Stage) :
    TokenKind.eof ∉ stage.expected ∧ TokenKind.eof ∉ stage.passedOver := by
  have hstep := stage.step_isSome .eof
  simpa [Token.kind] using hstep

/-! ### Back to the last tokens -/

variable {stage : Stage} {t : Token} {step : Step}

/-- A semicolon leads to the start of a statement, and nothing else does. -/
theorem next_eq_start_iff (h : stage.step t = some step) :
    step.next = .start ↔ t = .semicolon := by
  unfold Stage.step at h
  split at h <;> cases h <;> simp [Step.next]

/-- A connective leads to where `filter` can be repeated, and nothing else does. -/
theorem filter_mem_passedOver_next_iff (h : stage.step t = some step) :
    .keyword .filter ∈ step.next.passedOver ↔ ∃ k : Connective, t = k.token := by
  have hconnective : (∃ k : Connective, t = k.token)
      ↔ t = .keyword .and ∨ t = .keyword .or := by
    constructor
    · rintro ⟨_ | _, rfl⟩ <;> simp [Connective.token]
    · rintro (rfl | rfl)
      · exact ⟨.and, rfl⟩
      · exact ⟨.or, rfl⟩
  rw [hconnective]
  unfold Stage.step at h
  split at h <;> cases h <;> simp [Step.next, passedOver]

/-- A number can make a range behind a number and `and`. -/
theorem number_mem_passedOver_next_iff (h : stage.step t = some step) :
    .number ∈ step.next.passedOver
      ↔ t = .keyword .and ∧ ∃ joint column op n, stage = .number joint column op n := by
  unfold Stage.step at h
  split at h <;> cases h <;> simp [Step.next, passedOver]

/-- A number is taken where a value is to come, behind an operator. -/
theorem next_eq_number_iff {joint : Joint} {column : String} {op : Operator} {n : Double}
    (h : stage.step t = some step) :
    step.next = .number joint column op n ↔ stage = .literal joint column op ∧ t = .number n := by
  unfold Stage.step at h
  split at h <;> cases h <;> simp [Step.next, and_assoc]

/-- No connective leads to where a value is to come. -/
theorem ne_and_of_next_eq_literal {joint : Joint} {column : String} {op : Operator}
    (h : stage.step t = some step) (hnext : step.next = .literal joint column op) :
    t ≠ .keyword .and := by
  unfold Stage.step at h
  split at h <;> cases h <;> cases hnext <;> simp

/-- A number is taken behind an operator, or as the second one of a range. -/
theorem stage_of_step_number (h : stage.step t = some step) (ht : t.kind = .number) :
    (∃ joint column op, stage = .literal joint column op) ∨ .number ∈ stage.passedOver := by
  unfold Stage.step at h
  split at h <;> cases h <;> cases ht <;> simp [passedOver]

end Stage

variable {ts : List Token} {stage : Stage}

/-- Behind one more token there is the stage that the last step leads to. -/
theorem Stage.read_concat_eq_some_iff {t : Token} :
    Stage.start.read (ts ++ [t]) = some stage
      ↔ ∃ last step, Stage.start.read ts = some last ∧ last.step t = some step ∧
        step.next = stage := by
  simp [Stage.read_append, Stage.read_singleton, Stage.next?, Option.bind_eq_some_iff]

/-- Nothing but the start of a statement is reached without a token. -/
theorem Stage.ne_nil_of_read (hread : Stage.start.read ts = some stage) (hne : stage ≠ .start) :
    ts ≠ [] := by
  rintro rfl
  exact hne (Option.some.inj hread).symm

/-- Where something has been read there is a last token. -/
theorem Stage.exists_last_of_read (hread : Stage.start.read ts = some stage) (hne : ts ≠ []) :
    ∃ front t last step, ts = front ++ [t] ∧ Stage.start.read front = some last ∧
      last.step t = some step ∧ step.next = stage := by
  obtain ⟨front, t, rfl⟩ := (List.eq_nil_or_concat' ts).resolve_left hne
  obtain ⟨last, step, hfront, hstep, hnext⟩ := read_concat_eq_some_iff.1 hread
  exact ⟨front, t, last, step, rfl, hfront, hstep, hnext⟩

/-- Behind a number that is not the second one of a range there is a number, and no `and` before
it. -/
theorem Stage.exists_of_read_number {joint : Joint} {column : String} {op : Operator} {n : Double}
    (hread : Stage.start.read ts = some (.number joint column op n)) :
    ∃ before o, ts = before ++ [o] ++ [.number n] ∧ o ≠ .keyword .and := by
  obtain ⟨front, t, last, step, rfl, hfront, hstep, hnext⟩ :=
    exists_last_of_read hread (ne_nil_of_read hread nofun)
  obtain ⟨rfl, rfl⟩ := (next_eq_number_iff hstep).1 hnext
  obtain ⟨before, o, last, step, rfl, -, hstep, hnext⟩ :=
    exists_last_of_read hfront (ne_nil_of_read hfront nofun)
  exact ⟨before, o, rfl, ne_and_of_next_eq_literal hstep hnext⟩

/-- Behind a number that has no `and` before it, it is not the second one of a range. -/
theorem Stage.eq_number_of_read {before : List Token} {o : Token} {n : Double}
    (ho : o ≠ .keyword .and)
    (hread : Stage.start.read (before ++ [o] ++ [.number n]) = some stage) :
    ∃ joint column op, stage = .number joint column op n := by
  -- Two tokens back: the second number of a range would have an `and` before it.
  obtain ⟨literal, step, hbefore, hstep, rfl⟩ := read_concat_eq_some_iff.1 hread
  obtain ⟨last, step', -, hstep', rfl⟩ := read_concat_eq_some_iff.1 hbefore
  rcases stage_of_step_number hstep rfl with ⟨joint, column, op, hliteral⟩ | hpassed
  · exact ⟨joint, column, op, (next_eq_number_iff hstep).2 ⟨hliteral, rfl⟩⟩
  · exact absurd ((number_mem_passedOver_next_iff hstep').1 hpassed).1 ho

/-- What is not listed can be seen from the stage that has been reached. The stages pass over
`filter` behind a connective and a number behind a number and `and`; the end of the script is passed
over behind a statement. -/
theorem unlisted_iff {k : TokenKind} (hread : Stage.start.read ts = some stage) :
    Unlisted ts k ↔ k ∈ stage.passedOver ∨ k = .eof ∧ ts ≠ [] ∧ stage = .start := by
  constructor
  · intro h
    -- What is not listed says what the last token is, and that decides the stage.
    cases h with
    | eof before =>
      obtain ⟨last, step, -, hstep, rfl⟩ := Stage.read_concat_eq_some_iff.1 hread
      exact .inr ⟨rfl, by simp, (Stage.next_eq_start_iff hstep).2 rfl⟩
    | filter before k =>
      obtain ⟨last, step, -, hstep, rfl⟩ := Stage.read_concat_eq_some_iff.1 hread
      exact .inl ((Stage.filter_mem_passedOver_next_iff hstep).2 ⟨k, rfl⟩)
    | number before n ho =>
      obtain ⟨last, step, hlast, hstep, rfl⟩ := Stage.read_concat_eq_some_iff.1 hread
      obtain ⟨joint, column, op, rfl⟩ := Stage.eq_number_of_read ho hlast
      exact .inl ((Stage.number_mem_passedOver_next_iff hstep).2 ⟨rfl, joint, column, op, n, rfl⟩)
  · rintro (hpassed | ⟨rfl, hne, rfl⟩)
    · -- Conversely only two kinds are ever passed over, each behind tokens of one form.
      have hkind : k = .number ∨ k = .keyword .filter := by
        cases stage <;> simp_all [Stage.passedOver]
      have hstage : stage ≠ .start := by
        rintro rfl
        cases hpassed
      obtain ⟨front, t, last, step, rfl, hfront, hstep, rfl⟩ :=
        Stage.exists_last_of_read hread (Stage.ne_nil_of_read hread hstage)
      rcases hkind with rfl | rfl
      · obtain ⟨rfl, joint, column, op, n, rfl⟩ :=
          (Stage.number_mem_passedOver_next_iff hstep).1 hpassed
        obtain ⟨before, o, rfl, ho⟩ := Stage.exists_of_read_number hfront
        exact .number before n ho
      · obtain ⟨k, rfl⟩ := (Stage.filter_mem_passedOver_next_iff hstep).1 hpassed
        exact .filter front k
    · obtain ⟨front, t, last, step, rfl, -, hstep, hnext⟩ := Stage.exists_last_of_read hread hne
      rw [(Stage.next_eq_start_iff hstep).1 hnext]
      exact .eof front

/-- Something is not listed behind a semicolon or a connective, and nowhere else. -/
theorem exists_unlisted_iff :
    (∃ k, Unlisted ts k)
      ↔ ∃ t ∈ ts.getLast?, t = .semicolon ∨ ∃ k : Connective, t = k.token := by
  constructor
  · rintro ⟨k, h⟩
    cases h with
    | eof before => exact ⟨.semicolon, by simp, .inl rfl⟩
    | filter before k => exact ⟨k.token, by simp, .inr ⟨k, rfl⟩⟩
    | number before n ho => exact ⟨.keyword .and, by simp, .inr ⟨.and, rfl⟩⟩
  · rintro ⟨t, hlast, ht⟩
    obtain ⟨front, rfl⟩ := List.getLast?_eq_some_iff.1 hlast
    rcases ht with rfl | ⟨k, rfl⟩
    · exact ⟨_, .eof front⟩
    · exact ⟨_, .filter front k⟩

/-! ### What an error lists -/

/-- A kind is acceptable exactly if the stage that has been reached takes it, listed or not; and
so is the end of the script behind whole statements. -/
theorem acceptable_iff {k : TokenKind} (h : ∀ t ∈ ts, t.Spelled)
    (hread : Stage.start.read ts = some stage) :
    Acceptable ts k ↔ k ∈ stage.expected ∨ k ∈ stage.passedOver ∨
      k = .eof ∧ ts ≠ [] ∧ stage = .start := by
  have htakes : ∀ t : Token, (stage.step t).isSome = true
      ↔ t.kind ∈ stage.expected ∨ t.kind ∈ stage.passedOver := by
    intro t
    rw [Stage.step_isSome, decide_eq_true_iff, List.mem_append]
  rw [← or_assoc]
  constructor
  · rintro ⟨t, more, rfl, haccepted, -⟩
    -- A token of a program can be written, or it is the last one.
    have ht : t.Spelled ∨ t = .eof := by
      obtain ⟨front, happend, hspelled, -, -⟩ := accepted_iff.1 haccepted
      obtain ⟨more', hmore, rfl⟩ := exists_append_of_append_eof h happend
      cases more' with
      | nil =>
        cases hmore
        exact .inr rfl
      | cons t' more' =>
        cases hmore
        exact .inl (hspelled t (by simp))
    rw [List.append_cons] at haccepted
    rcases (viable_concat_iff h ht hread).1 ⟨more, haccepted⟩ with hstep | ⟨rfl, hne, hstart⟩
    · exact .inl ((htakes t).1 hstep)
    · exact .inr ⟨rfl, hne, hstart⟩
  · rintro (hmem | ⟨rfl, hne, rfl⟩)
    · -- A stage looks at the kind of a token alone, so any one that can be written will do.
      have hk : k ≠ .eof := by
        rintro rfl
        exact hmem.elim stage.eof_notMem_expected.1 stage.eof_notMem_expected.2
      obtain ⟨t, ht, rfl⟩ := Token.exists_spelled_of_kind hk
      obtain ⟨more, haccepted⟩ :=
        (viable_concat_iff h (.inl ht) hread).2 (.inl ((htakes t).2 hmem))
      rw [← List.append_cons] at haccepted
      exact ⟨t, more, rfl, haccepted, fun heof => absurd heof hk⟩
    · exact ⟨.eof, [], rfl, accepted_iff.2 ⟨ts, rfl, h, hne, hread⟩, fun _ => rfl⟩

/-- What a syntax error lists as expected are the kinds that a program can go on with behind the
tokens before, all but those that are not listed. These it can go on with as well; so the list is
the set of kinds that would have been accepted exactly if the last token is neither a semicolon
nor a connective. -/
theorem expected_of_unexpected {script : String} {found : Lexeme} {expected : List TokenKind}
    (h : Program.parse script = .error (.unexpected found expected)) :
    ∃ before after, (Feed.ofScript script).front = before ++ found :: after ∧
      let ts := before.map Lexeme.token
      Viable ts ∧ ¬Viable (ts ++ [found.token]) ∧
      (∀ k, k ∈ expected ↔ Acceptable ts k ∧ ¬Unlisted ts k) ∧
      (∀ k, Unlisted ts k → Acceptable ts k) ∧
      ((∀ k, k ∈ expected ↔ Acceptable ts k)
        ↔ ∀ t ∈ ts.getLast?, t ≠ .semicolon ∧ ∀ k : Connective, t ≠ k.token) := by
  have houtcome := outcome_parse script
  rw [h] at houtcome
  obtain @⟨before, after, _, stage, hfront, hspelled, hread, hl, -⟩ := houtcome
  have hspelled := List.forall_mem_map.2 hspelled
  -- A stage lists nothing that it passes over, and the end of the script at no time.
  have hunlisted : ∀ k, k ∈ stage.expected → ¬Unlisted (before.map Lexeme.token) k := by
    intro k hk hunlisted
    rcases (unlisted_iff hread).1 hunlisted with hpassed | ⟨rfl, -⟩
    · exact Stage.notMem_passedOver hk hpassed
    · exact stage.eof_notMem_expected.1 hk
  have hacceptable : ∀ k, Acceptable (before.map Lexeme.token) k
      ↔ k ∈ stage.expected ∨ Unlisted (before.map Lexeme.token) k := by
    intro k
    rw [acceptable_iff hspelled hread, unlisted_iff hread]
  refine ⟨before, after, hfront, (viable_iff hspelled).2 ⟨stage, hread⟩, ?_, ?_, ?_, ?_⟩
  · rwa [List.map_append] at hl
  · intro k
    rw [hacceptable, or_and_right, and_not_self_iff, or_false]
    exact (and_iff_left_of_imp (hunlisted k)).symm
  · exact fun k hk => (hacceptable k).2 (.inr hk)
  · -- The list is complete exactly if nothing is left out of it.
    have hnone : (∀ k, k ∈ stage.expected ↔ Acceptable (before.map Lexeme.token) k)
        ↔ ¬∃ k, Unlisted (before.map Lexeme.token) k := by
      constructor
      · rintro hall ⟨k, hk⟩
        exact hunlisted k ((hall k).2 ((hacceptable k).2 (.inr hk))) hk
      · intro hnone k
        rw [hacceptable]
        exact (or_iff_left fun hk => hnone ⟨k, hk⟩).symm
    rw [hnone, exists_unlisted_iff]
    simp only [not_exists, not_and, not_or]

/-- Behind `sort` the list is complete. -/
theorem expected_behind_sort :
    Program.parse "sort;" = .error (.unexpected ⟨.semicolon, ";", ⟨1, 5⟩⟩ [.keyword .column]) ∧
      ∃ before after, (Feed.ofScript "sort;").front = before ++ ⟨.semicolon, ";", ⟨1, 5⟩⟩ :: after ∧
        let ts := before.map Lexeme.token
        Viable ts ∧ ¬Viable (ts ++ [.semicolon]) ∧
        (∀ k, k ∈ [.keyword .column] ↔ Acceptable ts k ∧ ¬Unlisted ts k) ∧
        (∀ k, Unlisted ts k → Acceptable ts k) ∧
        ((∀ k, k ∈ [.keyword .column] ↔ Acceptable ts k)
          ↔ ∀ t ∈ ts.getLast?, t ≠ .semicolon ∧ ∀ k : Connective, t ≠ k.token) := by
  have hword : Feed.ofScript "sort;" =
      let f := Feed.ofChars [';'] ⟨1, 5⟩
      ⟨.ok ⟨.keyword .sort, "sort", ⟨1, 1⟩⟩ :: f.items, f.ending⟩ := by
    rw [Feed.ofScript, Feed.ofChars_eq]
    rfl
  have hparse : Program.parse "sort;"
      = .error (.unexpected ⟨.semicolon, ";", ⟨1, 5⟩⟩ [.keyword .column]) := by
    rw [Program.parse, hword, Feed.ofChars_semicolon, Feed.ofChars_nil]
    cbv
  exact ⟨hparse, expected_of_unexpected hparse⟩

/-- Behind a statement the script could end, and the list does not say so. -/
theorem expected_omits_eof :
    let ts : List Token := [.keyword .print, .semicolon]
    Program.parse "print;;"
        = .error (.unexpected ⟨.semicolon, ";", ⟨1, 7⟩⟩ Stage.start.expected) ∧
      (Feed.ofScript "print;;").front.map Lexeme.token = ts ++ [.semicolon, .eof] ∧
      Acceptable ts .eof ∧ ¬∀ k, k ∈ Stage.start.expected ↔ Acceptable ts k := by
  intro ts
  have hword : Feed.ofScript "print;;" =
      let f := Feed.ofChars [';', ';'] ⟨1, 6⟩
      ⟨.ok ⟨.keyword .print, "print", ⟨1, 1⟩⟩ :: f.items, f.ending⟩ := by
    rw [Feed.ofScript, Feed.ofChars_eq]
    rfl
  rw [Feed.ofChars_semicolon, Feed.ofChars_semicolon, Feed.ofChars_nil] at hword
  -- Behind a statement the stage is the first one again, where the script may end.
  have heof : Acceptable ts .eof := by
    have hread : Stage.start.read ts = some .start := rfl
    have hspelled : ∀ t ∈ ts, t.Spelled := by
      simp [ts, Token.Spelled.keyword, Token.Spelled.semicolon]
    exact (acceptable_iff hspelled hread).2 (.inr (.inr ⟨rfl, List.cons_ne_nil _ _, rfl⟩))
  refine ⟨?_, ?_, heof, fun hall => ?_⟩
  · rw [Program.parse, hword]
    cbv
  · rw [hword]
    rfl
  · exact Stage.start.eof_notMem_expected.1 ((hall .eof).2 heof)

end Roster
