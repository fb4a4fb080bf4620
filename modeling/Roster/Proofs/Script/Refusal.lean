import Roster.Proofs.Script.Prefixes

/-!
# `Roster.Proofs.Script.Refusal`: where reading stops

A reader looks at the next lexeme before the current one counts as read, and behind a number it
looks at two. Still a script fails where it first goes wrong: an error names the first lexeme that
no program goes on with, and a lexical fault is reported only if a program could go on in its
place.

`Stops` says where reading stops, for a reader that stands at any stage: at a lexeme that does not
fit, at the first fault of the feed, or at the end of the script. `stops_readOn` is the induction
on what lies ahead; one lexeme that fits moves the reader on (`Stops.cons`). A stage never leads
back to the start of a statement within the statement (`step_ne_start`), so the end of the script
ends a program only behind a statement.

`Feed.Outcome` says the same of scripts through what programs can start with (`Viable`), and
`outcome_parse` takes it from the stages. Lexemes stop being viable at one place at most
(`unique_of_not_viable`), so the outcome can be read backwards too: `parse_error_iff`, the main
result, gives for each kind of error exactly when a script fails with it.
-/

set_option autoImplicit false

namespace Roster

/-- No step within a statement leads to the start of one. -/
theorem Stage.step_ne_start (stage : Stage) (t : Token) : stage.step t ≠ some (.stage .start) := by
  intro h
  unfold step at h
  split at h <;> cases h

namespace Parser

/-- Reads the rest of a statement of which a stage has been read, and all statements behind it. -/
def readOn (ending : Ending) (stage : Stage) (current : Lexeme) (items : List LexItem) :
    Except ParseError (List Statement) :=
  match finish ending stage current items with
  | (.error e, _) => .error e
  | (.ok s, p) => p.statements.1.map (s :: ·)

/-- Statements are read from the start of the first one on. -/
theorem statements_eq_readOn {p : Parser} (h : p.atEnd = false) :
    p.statements.1 = readOn p.ahead.ending .start p.current p.ahead.items := by
  rw [statements, dif_neg (by simp [h]), readOn, ← statement]
  split
  · rename_i heq
    rw [heq]
  · rename_i heq
    rw [heq]
    dsimp only
    split <;> rename_i hrest <;> rw [hrest] <;> rfl

variable {ending : Ending} {stage next : Stage} {current l : Lexeme} {items : List LexItem}
  {s : Statement}

/-- A lexeme that does not fit is refused, whatever lies ahead. -/
theorem readOn_of_step_eq_none (h : stage.step current.token = none) (items : List LexItem) :
    readOn ending stage current items = .error (.unexpected current stage.expected) := by
  rcases items with _ | ⟨e | l, items⟩ <;> simp [readOn, finish, refuse, h]

/-- A fault behind a lexeme that fits is reported. -/
theorem readOn_of_next_eq_error {step : Step} {e : LexError} {ahead : Feed}
    (h : stage.step current.token = some step)
    (hnext : Feed.next ⟨items, ending⟩ = (.error e, ahead)) :
    readOn ending stage current items = .error (.lexical e) := by
  rcases items with _ | ⟨fault | l, items⟩
  · cases ending <;> cases hnext
    simp [readOn, finish, h]
  · cases hnext
    simp [readOn, finish, h]
  · cases hnext

/-- Within a statement the end of the script is refused. -/
theorem readOn_eof_of_stage (h : stage.step current.token = some (.stage next)) (p : Position) :
    readOn (.eof p) stage current [] = .error (.unexpected (.atEnd p) next.expected) := by
  simp [readOn, finish, refuse, h]

/-- Behind a statement the end of the script ends the program. -/
theorem readOn_eof_of_statement (h : stage.step current.token = some (.statement s))
    (p : Position) : readOn (.eof p) stage current [] = .ok [s] := by
  have hend : atEnd ⟨.atEnd p, ⟨[], .eof p⟩⟩ = true := rfl
  simp [readOn, finish, h, statements_of_atEnd hend, Except.map]

/-- Within a statement a lexeme that fits moves the reader on. -/
theorem readOn_of_stage (h : stage.step current.token = some (.stage next)) :
    readOn ending stage current (.ok l :: items) = readOn ending next l items := by
  simp [readOn, finish, h]

/-- Behind a statement the next one starts. -/
theorem readOn_of_statement (h : stage.step current.token = some (.statement s))
    (hl : l.token ≠ .eof) :
    readOn ending stage current (.ok l :: items)
      = (readOn ending .start l items).map (s :: ·) := by
  have hnot : atEnd ⟨l, ⟨items, ending⟩⟩ = false := by simpa [atEnd] using hl
  rw [← statements_eq_readOn hnot]
  simp [readOn, finish, h]

/-- Where reading from a stage on stops, given the lexemes up to the first fault, and the fault. -/
inductive Stops (stage : Stage) (front : List Lexeme) (fault? : Option LexError) :
    Except ParseError (List Statement) → Prop
  /-- At a lexeme that does not fit. The end of the script fits at the start of a statement. -/
  | refused {before after : List Lexeme} {l : Lexeme} {next : Stage}
    (hfront : front = before ++ l :: after)
    (hread : stage.read (before.map Lexeme.token) = some next)
    (hstep : next.step l.token = none) (heof : next = .start → l.token ≠ .eof) :
    Stops stage front fault? (.error (.unexpected l next.expected))
  /-- At the fault. All lexemes before it fit. -/
  | faulty {e : LexError} {next : Stage} (hfault : fault? = some e)
    (hread : stage.read (front.map Lexeme.token) = some next) :
    Stops stage front fault? (.error (.lexical e))
  /-- At the end of the script. All lexemes before it fit, and there are some. -/
  | complete {before : List Lexeme} {p : Position} {ss : List Statement}
    (hfront : front = before ++ [.atEnd p]) (hfault : fault? = none) (hne : before ≠ [])
    (hread : stage.read (before.map Lexeme.token) = some .start) :
    Stops stage front fault? (.ok ss)

namespace Stops

variable {stage : Stage} {front : List Lexeme} {fault? : Option LexError}
  {r : Except ParseError (List Statement)}

/-- Where reading stops does not depend on the statements that have been read. -/
theorem map (h : Stops stage front fault? r) (f : List Statement → List Statement) :
    Stops stage front fault? (r.map f) := by
  cases h with
  | refused hfront hread hstep heof => exact .refused hfront hread hstep heof
  | faulty hfault hread => exact .faulty hfault hread
  | complete hfront hfault hne hread => exact .complete hfront hfault hne hread

/-- A lexeme that fits does not stop reading. -/
theorem cons {l : Lexeme} {step : Step} (hstep : stage.step l.token = some step)
    (h : Stops step.next front fault? r) : Stops stage (l :: front) fault? r := by
  have hread : ∀ ls : List Lexeme, stage.read ((l :: ls).map Lexeme.token)
      = step.next.read (ls.map Lexeme.token) := by
    intro ls
    rw [List.map_cons, Stage.read_cons, Stage.next?, hstep]
    rfl
  cases h with
  | refused hfront hread' hstep' heof =>
    exact .refused (congrArg (l :: ·) hfront) ((hread _).trans hread') hstep' heof
  | faulty hfault hread' => exact .faulty hfault ((hread _).trans hread')
  | complete hfront hfault hne hread' =>
    exact .complete (congrArg (l :: ·) hfront) hfault (List.cons_ne_nil _ _)
      ((hread _).trans hread')

end Stops

/-- Reading on from a stage stops where it has to, whatever lies ahead. The induction is on the
items ahead. The current lexeme is checked before the next item is looked at, so a fault counts only
if all before it fits. -/
theorem stops_readOn (heof : ∀ l, .ok l ∈ items → l.token ≠ .eof)
    (hcurrent : stage = .start → current.token ≠ .eof) :
    Stops stage (current :: Feed.front ⟨items, ending⟩) (Feed.fault? ⟨items, ending⟩)
      (readOn ending stage current items) := by
  induction items generalizing stage current with
  | nil =>
    -- Only the ending of the feed is left, and it is looked at if the lexeme fits.
    cases hstep : stage.step current.token with
    | none =>
      rw [readOn_of_step_eq_none hstep]
      exact .refused (List.nil_append _).symm rfl hstep hcurrent
    | some step =>
      have hread := Stage.read_of_step hstep
      cases ending with
      | stuck c p =>
        rw [readOn_of_next_eq_error hstep rfl]
        exact .faulty rfl hread
      | eof p =>
        cases step with
        | stage next =>
          rw [readOn_eof_of_stage hstep]
          have hfront : [current, .atEnd p] = [current] ++ .atEnd p :: [] := rfl
          refine .refused hfront hread (Stage.step_eof next) ?_
          rintro rfl
          exact absurd hstep (stage.step_ne_start _)
        | statement s =>
          rw [readOn_eof_of_statement hstep]
          have hfront : [current, .atEnd p] = [current] ++ [.atEnd p] := rfl
          exact .complete hfront rfl (List.cons_ne_nil _ _) hread
  | cons item items ih =>
    have heof' : ∀ l, .ok l ∈ items → l.token ≠ .eof :=
      fun l hl => heof l (List.mem_cons_of_mem _ hl)
    cases hstep : stage.step current.token with
    | none =>
      -- The item ahead may be a fault; the lexeme that does not fit comes first.
      rw [readOn_of_step_eq_none hstep]
      exact .refused (List.nil_append _).symm rfl hstep hcurrent
    | some step =>
      cases item with
      | error e =>
        rw [readOn_of_next_eq_error hstep rfl]
        exact .faulty rfl (Stage.read_of_step hstep)
      | ok l =>
        have hl : l.token ≠ .eof := heof l List.mem_cons_self
        cases step with
        | stage next =>
          rw [readOn_of_stage hstep]
          exact (ih heof' fun _ => hl).cons hstep
        | statement s =>
          rw [readOn_of_statement hstep hl]
          exact ((ih heof' fun _ => hl).map _).cons hstep

end Parser

/-! ### Scripts -/

namespace Parser

/-- At the end there is no program. -/
theorem program_of_atEnd {p : Parser} (h : p.atEnd = true) :
    p.program.1 = .error .emptyProgram := by
  rw [program, statements_of_atEnd h]

/-- Before the end a program is the statements that are read. -/
theorem program_of_not_atEnd {p : Parser} (h : p.atEnd = false) :
    p.program.1 = p.statements.1 := by
  unfold program
  split
  · rename_i q hnil
    obtain ⟨_, _, _, _, _, hcons⟩ := (statements_eq_ok_iff h).1 hnil
    cases hcons
  · rfl

end Parser

/-- A script without lexemes is empty; every other one is read from its first lexeme on. -/
theorem stops_parse (script : String) :
    let f := Feed.ofScript script
    Parser.Stops .start f.front f.fault? (Program.parse script) ∨
      (∃ p, f.front = [.atEnd p]) ∧ f.fault? = none ∧
        Program.parse script = .error .emptyProgram := by
  intro f
  have hspelled : ∀ l, .ok l ∈ f.items → l.token.Spelled := fun _ => Feed.spelled_of_mem_ofScript
  have hparse : Program.parse script = (do
      let p ← Parser.ofFeed f
      p.program.1) := rfl
  rw [hparse]
  obtain ⟨items, ending⟩ := f
  rcases items with _ | ⟨e | l, items⟩
  · cases ending with
    | eof p => exact .inr ⟨⟨p, rfl⟩, rfl, Parser.program_of_atEnd rfl⟩
    | stuck c p => exact .inl (.faulty rfl rfl)
  · exact .inl (.faulty rfl rfl)
  · have hl : l.token ≠ .eof := (hspelled l List.mem_cons_self).ne_eof
    have hnot : Parser.atEnd ⟨l, ⟨items, ending⟩⟩ = false := by simpa [Parser.atEnd] using hl
    -- Before the end of the script the program is the statements that are read on.
    have hread : (do
        let p ← Parser.ofFeed ⟨.ok l :: items, ending⟩
        p.program.1) = Parser.readOn ending .start l items :=
      (Parser.program_of_not_atEnd hnot).trans (Parser.statements_eq_readOn hnot)
    rw [hread]
    exact .inl (Parser.stops_readOn
      (fun l' hl' => (hspelled l' (List.mem_cons_of_mem _ hl')).ne_eof) fun _ => hl)

variable {script : String} {ls before after : List Lexeme} {l : Lexeme}

/-- The lexemes up to one of them are viable if all are. -/
theorem viable_of_eq_append (h : ls = before ++ l :: after)
    (hviable : Viable (ls.map Lexeme.token)) : Viable ((before ++ [l]).map Lexeme.token) := by
  rw [h, List.append_cons, List.map_append] at hviable
  exact hviable.of_append

/-- Lexemes stop being viable at one place at most: of two viable fronts the longer one has the
lexeme behind the shorter one. -/
theorem unique_of_not_viable {before' after' : List Lexeme} {l' : Lexeme}
    (h : before ++ l :: after = before' ++ l' :: after')
    (hbefore : Viable (before.map Lexeme.token)) (hl : ¬Viable ((before ++ [l]).map Lexeme.token))
    (hbefore' : Viable (before'.map Lexeme.token))
    (hl' : ¬Viable ((before' ++ [l']).map Lexeme.token)) : l = l' := by
  rcases List.append_eq_append_iff.1 h with ⟨as, hlonger, hrest⟩ | ⟨as, hlonger, hrest⟩
  · cases as with
    | nil =>
      cases hrest
      rfl
    | cons a as =>
      cases hrest
      exact absurd (viable_of_eq_append hlonger hbefore') hl
  · cases as with
    | nil =>
      cases hrest
      rfl
    | cons a as =>
      cases hrest
      exact absurd (viable_of_eq_append hlonger hbefore) hl'

/-- What comes of reading a feed as a program, as far as the front of the feed decides it. -/
inductive Feed.Outcome (f : Feed) : Except ParseError Program → Prop
  /-- There is a first lexeme with which the lexemes are not viable. -/
  | unexpected {before after : List Lexeme} {l : Lexeme} {stage : Stage}
    (hfront : f.front = before ++ l :: after) (hspelled : ∀ b ∈ before, b.token.Spelled)
    (hread : Stage.start.read (before.map Lexeme.token) = some stage)
    (hl : ¬Viable ((before ++ [l]).map Lexeme.token)) (hfirst : before ≠ [] ∨ l.token ≠ .eof) :
    Outcome f (.error (.unexpected l stage.expected))
  /-- All lexemes are viable, and there is a fault behind them. -/
  | lexical {e : LexError} (hfault : f.fault? = some e)
    (hviable : Viable (f.front.map Lexeme.token)) : Outcome f (.error (.lexical e))
  /-- All lexemes are viable, and there is no fault. -/
  | program {p : Program} (hfault : f.fault? = none)
    (hviable : Viable (f.front.map Lexeme.token)) : Outcome f (.ok p)
  /-- There is nothing but the end of the script. -/
  | empty (hfault : f.fault? = none) (hfront : f.front.map Lexeme.token = [.eof]) :
    Outcome f (.error .emptyProgram)

/-- Where reading a script stops decides what comes of it. A lexeme that the stage does not take
leaves no viable prefix, a fault is met behind a viable one, and all else is a program. -/
theorem outcome_parse (script : String) :
    (Feed.ofScript script).Outcome (Program.parse script) := by
  rcases stops_parse script with hstops | ⟨⟨p, hfront⟩, hfault, hparse⟩
  · generalize Program.parse script = r at hstops
    cases hstops with
    | @refused before after l stage hfront hread hstep heof =>
      obtain ⟨hspelled, hl⟩ := Feed.front_ofScript_eq_append hfront
      refine .unexpected hfront hspelled hread ?_ ?_
      · -- The stage does not take the lexeme, and is no start if that is the end of the script.
        rw [List.map_append]
        intro hviable
        rcases (viable_concat_iff (List.forall_mem_map.2 hspelled)
          (hl.imp_right And.left) hread).1 hviable with hsome | ⟨hend, -, hstart⟩
        · rw [hstep] at hsome
          cases hsome
        · exact heof hstart hend
      · cases before with
        | nil =>
          cases hread
          exact .inr (heof rfl)
        | cons b before => exact .inl (List.cons_ne_nil _ _)
    | faulty hfault hread =>
      -- All of the front has been read, so none of it is the end of the script.
      have hspelled : ∀ l ∈ (Feed.ofScript script).front, l.token.Spelled := by
        intro l hl
        obtain ⟨before, after, hfront⟩ := List.append_of_mem hl
        obtain ⟨-, hspelled | ⟨heof, -⟩⟩ := Feed.front_ofScript_eq_append hfront
        · exact hspelled
        · exact absurd (heof ▸ List.mem_map_of_mem hl) (Stage.eof_notMem_of_read hread)
      exact .lexical hfault ((viable_iff (List.forall_mem_map.2 hspelled)).2 ⟨_, hread⟩)
    | complete hfront hfault hne hread =>
      obtain ⟨hspelled, -⟩ := Feed.front_ofScript_eq_append hfront
      refine .program hfault ?_
      rw [hfront, List.map_append]
      refine (viable_concat_eof_iff (List.forall_mem_map.2 hspelled)).2 ⟨?_, hread⟩
      simpa using hne
  · rw [hparse]
    refine .empty hfault ?_
    rw [hfront]
    rfl

/-- If the end of the script is the only lexeme, no other one stands before or at it. -/
theorem eq_nil_of_only_eof (h : (before ++ l :: after).map Lexeme.token = [.eof]) :
    before = [] ∧ l.token = .eof := by
  cases before with
  | nil => exact ⟨rfl, (List.cons.inj h).1⟩
  | cons b before => simp at h

/-- A script fails at a lexeme exactly if it is the first one with which the lexemes are not
viable, unless it is the end of the script and the only one. -/
theorem exists_unexpected_iff :
    (∃ expected, Program.parse script = .error (.unexpected l expected))
      ↔ ∃ before after, (Feed.ofScript script).front = before ++ l :: after ∧
        Viable (before.map Lexeme.token) ∧ ¬Viable ((before ++ [l]).map Lexeme.token) ∧
        (before ≠ [] ∨ l.token ≠ .eof) := by
  have houtcome := outcome_parse script
  generalize Program.parse script = r at houtcome ⊢
  cases houtcome with
  | unexpected hfront hspelled hread hl' hfirst =>
    have hbefore := (viable_iff (List.forall_mem_map.2 hspelled)).2 ⟨_, hread⟩
    constructor
    · rintro ⟨expected, h⟩
      cases h
      exact ⟨_, _, hfront, hbefore, hl', hfirst⟩
    · rintro ⟨before', after', hfront', hbefore', hl, -⟩
      -- There is one place where the lexemes cease to be viable.
      obtain rfl := unique_of_not_viable (hfront'.symm.trans hfront) hbefore' hl hbefore hl'
      exact ⟨_, rfl⟩
  | lexical _ hviable =>
    refine iff_of_false (by simp) ?_
    rintro ⟨before, after, hfront, -, hl, -⟩
    exact hl (viable_of_eq_append hfront hviable)
  | program _ hviable =>
    -- The lexemes of a program are viable to the end.
    refine iff_of_false (by simp) ?_
    rintro ⟨before, after, hfront, -, hl, -⟩
    exact hl (viable_of_eq_append hfront hviable)
  | empty _ honly =>
    refine iff_of_false (by simp) ?_
    rintro ⟨before, after, hfront, -, -, hfirst⟩
    obtain ⟨hnil, hend⟩ := eq_nil_of_only_eof (hfront ▸ honly)
    exact hfirst.elim (· hnil) (· hend)

/-- A script fails for a lexical fault exactly if it is the first one and all lexemes before it are
viable. -/
theorem parse_eq_lexical_iff {e : LexError} :
    Program.parse script = .error (.lexical e)
      ↔ (Feed.ofScript script).fault? = some e ∧
        Viable ((Feed.ofScript script).front.map Lexeme.token) := by
  have houtcome := outcome_parse script
  generalize Program.parse script = r at houtcome ⊢
  cases houtcome with
  | unexpected hfront _ _ hl _ =>
    refine iff_of_false (by simp) ?_
    rintro ⟨-, hviable⟩
    exact hl (viable_of_eq_append hfront hviable)
  | lexical hfault hviable => simp [hfault, hviable]
  | program hfault _ => simp [hfault]
  | empty hfault _ => simp [hfault]

/-- A script has no statement exactly if the end of the script is its only lexeme. -/
theorem parse_eq_emptyProgram_iff :
    Program.parse script = .error .emptyProgram
      ↔ (Feed.ofScript script).front.map Lexeme.token = [.eof] := by
  have hnot : ¬Viable ([] ++ [.eof]) := by
    rw [viable_concat_eof_iff (by simp)]
    exact fun h => h.1 rfl
  have houtcome := outcome_parse script
  generalize Program.parse script = r at houtcome ⊢
  cases houtcome with
  | unexpected hfront _ _ _ hfirst =>
    refine iff_of_false (by simp) fun honly => ?_
    obtain ⟨hnil, hend⟩ := eq_nil_of_only_eof (hfront ▸ honly)
    exact hfirst.elim (· hnil) (· hend)
  | lexical _ hviable => exact iff_of_false (by simp) fun honly => hnot (honly ▸ hviable)
  | program _ hviable => exact iff_of_false (by simp) fun honly => hnot (honly ▸ hviable)
  | empty _ honly => exact iff_of_true rfl honly

/-- What a script fails with, and where. Its lexemes are all up to the end of the script, or those
up to its first lexical fault.

- A lexeme is unexpected exactly if it is the first one with which the lexemes are not viable. The
  end of the script counts as a lexeme, unless it is the only one.
- A lexical fault is reported exactly if it is that first one and all lexemes are viable.
- There is no statement exactly if the end of the script is the only lexeme.
- So behind a lexeme with which the lexemes are not viable no lexical fault is ever reported. -/
theorem parse_error_iff (script : String) :
    ((Feed.ofScript script).lexemes = match (Feed.ofScript script).fault? with
      | none => .ok (Feed.ofScript script).front
      | some e => .error e) ∧
    (∀ l, (∃ expected, Program.parse script = .error (.unexpected l expected))
      ↔ ∃ before after, (Feed.ofScript script).front = before ++ l :: after ∧
        Viable (before.map Lexeme.token) ∧ ¬Viable ((before ++ [l]).map Lexeme.token) ∧
        (before ≠ [] ∨ l.token ≠ .eof)) ∧
    (∀ e, Program.parse script = .error (.lexical e)
      ↔ (Feed.ofScript script).fault? = some e ∧
        Viable ((Feed.ofScript script).front.map Lexeme.token)) ∧
    (Program.parse script = .error .emptyProgram
      ↔ (Feed.ofScript script).front.map Lexeme.token = [.eof]) ∧
    ∀ before after e, (Feed.ofScript script).front = before ++ after →
      ¬Viable (before.map Lexeme.token) → Program.parse script ≠ .error (.lexical e) := by
  refine ⟨Feed.lexemes_eq _, fun l => exists_unexpected_iff, fun e => parse_eq_lexical_iff,
    parse_eq_emptyProgram_iff, fun before after e hfront hbefore hparse => ?_⟩
  obtain ⟨-, hviable⟩ := parse_eq_lexical_iff.1 hparse
  rw [hfront, List.map_append] at hviable
  exact hbefore hviable.of_append

end Roster
