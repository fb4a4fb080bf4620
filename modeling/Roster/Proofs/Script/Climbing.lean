import Roster.Proofs.Script.Leading

/-!
# `Roster.Proofs.Script.Climbing`: reading by descent is reading

`statement_eq` is the main result: a reader by descent reads a statement as the parser does that it
stands for, and the same is left behind it, whether it is read or not. `Descent.parse_eq` says of
scripts that the descent reads them as `Program.parse` does, and stops with nothing but the errors
of that. So it never meets a case that is taken to be impossible, a number that is no numeral or the
end of a bound, and the stages of statements are a recursive descent in other words.

Each part of a statement leads from one stage to another. A chain of comparisons needs a lemma for
each precedence, since the stages keep one chain where the descent has a call for every operand:
behind `and` a single comparison is read (`leads_tightest`), behind `or` what comes into the open
conjunction (`leads_conjunction`), and from the first comparison on the whole chain
(`leads_chain`). The inductions are on the bound of the loop, which stays above what is left to
read. That `and` never follows an operand of `or` is read off from where climbing ends
(`precedence_lt_of_climb`).
-/

set_option autoImplicit false

namespace Roster

namespace Descent

section
variable {stage next : Stage} {r : Reader}

/-! ### Comparisons -/

/-- The rest of a range: `and`, and a number that has been looked at. The number has been seen in
the buffer, so it is the current lexeme once `and` has been moved over. -/
theorem leads_range {joint : Joint} {column : String} {op : Operator} {n : Double} {l : Lexeme}
    (h : r.Sound) (hcurrent : r.current.token = .keyword .and)
    (hpeeked : r.peeked = some l) (hl : l.token.kind = .number) :
    Leads (.number joint column op n) r (do
      let _ ← advance
      return .range n (← expectNumber)) fun v _ s =>
        s = .chain (joint.extend ⟨column, op, v⟩) := by
  have hstep : Stage.step (.number joint column op n) r.current.token
      = some (.stage (.numberAnd joint column op n)) := by
    rw [hcurrent]
    rfl
  refine (leads_advance h hstep).bind ?_
  rintro _ r' s hsound - ⟨-, -, hnext, rfl⟩
  have hnumber : r'.current.token.kind = .number := by rw [hnext l hpeeked, hl]
  have htake : ∀ m, Stage.step (.numberAnd joint column op n) (.number m)
      = some (.stage (.chain (joint.extend ⟨column, op, .range n m⟩))) := fun _ => rfl
  refine (leads_expectNumber hsound htake hnumber).bind ?_
  rintro m r s hsound - rfl
  exact .pure hsound rfl

/-- The literal of a comparison. Behind a number and `and` the lexeme that comes next tells whether
`and` makes a range or joins another comparison; there is no lexeme to be had only if it cannot be
looked at. -/
theorem leads_literal {joint : Joint} {column : String} {op : Operator} (h : r.Sound) :
    Leads (.literal joint column op) r literal fun v _ s =>
      s = .chain (joint.extend ⟨column, op, v⟩) := by
  refine .token ?_
  cases htoken : r.current.token with
  | number n =>
    have hnumber : Stage.step (.literal joint column op) (.number n)
        = some (.stage (.number joint column op n)) := rfl
    refine (leads_taken h htoken hnumber).bind ?_
    rintro l r s hsound - rfl
    refine .token ?_
    split
    · rename_i hand
      -- At `and` the lexeme behind it has to be looked at.
      have hstep : Stage.step (.number joint column op n) r.current.token
          = some (.stage (.numberAnd joint column op n)) := by
        rw [hand]
        rfl
      refine (leads_peek hsound hstep).bind ?_
      rintro t r' s hsound - ⟨hcurrent, ⟨l, hpeeked, rfl⟩, rfl⟩
      rw [← hcurrent] at hand
      split
      · rename_i m hl
        exact leads_range hsound hand hpeeked (congrArg Token.kind hl)
      · rename_i hl
        have hkind : l.token.kind ≠ .number := by
          intro hkind
          cases htoken : l.token <;> rw [htoken] at hkind <;> cases hkind
          exact hl _ htoken
        exact .of_rest_eq (Reader.rest_number hsound hand hpeeked hkind) (.pure hsound rfl)
    · rename_i hand
      exact .of_rest_eq (Reader.rest_number_of_ne_and hand) (.pure hsound rfl)
  | string s =>
    have htake : ∀ s, Stage.step (.literal joint column op) (.string s)
        = some (.stage (.chain (joint.extend ⟨column, op, .text s⟩))) := fun _ => rfl
    refine (leads_expectString h htake fun hkind => ?_).bind ?_
    · rw [htoken] at hkind
      exact absurd rfl hkind
    · rintro s r' st hsound - rfl
      exact .pure hsound rfl
  | _ =>
    refine leads_unexpected h ?_ rfl
    rw [htoken]
    rfl

/-- A comparison that is read where one is to come makes a longer chain. It is read in four moves,
each from the stage that the one before it has led to. -/
theorem leads_comparison {joint : Joint} (h : r.Sound) :
    Leads (.comparison joint) r comparison fun c _ s => s = .chain (joint.extend c) := by
  have hcolumn : Stage.step (.comparison joint) (.keyword .column) = some (.stage (.name joint)) :=
    rfl
  refine (leads_word h rfl rfl hcolumn).bind ?_
  rintro _ r s hsound - rfl
  have hname : ∀ column, Stage.step (.name joint) (.string column)
      = some (.stage (.operator joint column)) := fun _ => rfl
  refine (leads_string hsound rfl rfl hname).bind ?_
  rintro column r s hsound - rfl
  -- The stage takes exactly the tokens that are operators.
  have hoperator : ∀ t, Stage.step (.operator joint column) t
      = (Operator.ofToken? t).map fun op => .stage (.literal joint column op) := by
    rintro (w | _ | _ | _ | _ | _)
    · cases w <;> rfl
    all_goals rfl
  refine (leads_choice hsound hoperator rfl).bind ?_
  rintro op r s hsound - rfl
  refine (leads_literal hsound).bind ?_
  rintro v r s hsound - rfl
  exact .pure hsound rfl

/-! ### Chains -/

/-- The connective behind a chain, and the word `filter` if it is repeated. -/
theorem leads_lead {c : Chain} {k : Connective} (h : r.Sound)
    (hk : Connective.ofToken? r.current.token = some k) :
    Leads (.chain c) r lead fun _ r' s => r'.pending < r.pending ∧
      s = .comparison (.after c k) := by
  have hstep : Stage.step (.chain c) r.current.token
      = some (.stage (.repeatable (.after c k))) := by
    unfold Connective.ofToken? at hk
    split at hk <;> cases hk <;> rename_i htoken <;> rw [htoken] <;> rfl
  refine (leads_advance h hstep).bind ?_
  rintro _ r' s hsound - ⟨-, hpending, -, rfl⟩
  refine .token ?_
  split
  · rename_i hfilter
    have hstep : Stage.step (.repeatable (.after c k)) r'.current.token
        = some (.stage (.comparison (.after c k))) := by
      rw [hfilter]
      rfl
    refine (leads_advance hsound hstep).bind ?_
    rintro _ r'' s hsound - ⟨-, hpending', -, rfl⟩
    exact .pure hsound ⟨hpending'.trans hpending, rfl⟩
  · rename_i hfilter
    -- Without the word `filter` the comparison is to come at once.
    have hrest : r'.rest (.repeatable (.after c k)) = r'.rest (.comparison (.after c k)) := by
      refine Reader.rest_congr ?_ fun _ => rfl
      rcases htoken : r'.current.token with w | _ | _ | _ | _ | _
      · cases w <;> first | rfl | exact absurd htoken hfilter
      all_goals rfl
    exact .of_rest_eq hrest (.pure hsound ⟨hpending, rfl⟩)

/-- Climbing ends where no connective of the precedence stands. -/
theorem climb_of_lt {bound least : Nat} (left : Clause Comparison)
    (h : ∀ k, Connective.ofToken? r.current.token = some k → k.precedence < least) :
    climb (bound + 1) least left r = (.ok left, r) := by
  rw [climb, token_bind]
  cases hk : Connective.ofToken? r.current.token with
  | none => rfl
  | some k =>
    dsimp only
    rw [if_pos (h k hk)]
    rfl

/-- Otherwise it goes on with the operand behind the connective. -/
theorem climb_of_le {bound least : Nat} {k : Connective} (left : Clause Comparison)
    (hk : Connective.ofToken? r.current.token = some k) (h : least ≤ k.precedence) :
    climb (bound + 1) least left r = (do
      lead
      let right ← climb bound (k.precedence + 1) (.leaf (← comparison))
      climb bound least (.join k left right)) r := by
  rw [climb, token_bind, hk]
  dsimp only
  rw [if_neg (Nat.not_lt.2 h)]

/-- Nothing binds tighter than `and`, so a comparison behind it stands alone. -/
theorem leads_tightest {bound : Nat} (h : r.Sound) (hbound : r.pending < bound)
    (left : Clause Comparison) :
    Leads stage r (climb bound (Connective.and.precedence + 1) left) fun e _ s =>
      e = left ∧ s = stage := by
  cases bound with
  | zero => cases hbound
  | succ bound =>
    exact .congr (climb_of_lt left fun k _ => by cases k <;> decide) (.pure h ⟨rfl, rfl⟩)

/-- Where climbing has ended no connective of the precedence stands. -/
theorem precedence_lt_of_climb {bound least : Nat} {left clause : Clause Comparison}
    {r r' : Reader} {k : Connective} (h : climb bound least left r = (.ok clause, r'))
    (hk : Connective.ofToken? r'.current.token = some k) : k.precedence < least := by
  induction bound generalizing left r with
  | zero => cases h
  | succ bound ih =>
    by_cases hend : ∀ k, Connective.ofToken? r.current.token = some k → k.precedence < least
    · rw [climb_of_lt left hend] at h
      cases h
      exact hend k hk
    · push Not at hend
      obtain ⟨k', hk', hle⟩ := hend
      rw [climb_of_le left hk' hle] at h
      obtain ⟨_, r₁, -, h⟩ := exists_of_bind_eq_ok h
      obtain ⟨first, r₂, -, h⟩ := exists_of_bind_eq_ok h
      obtain ⟨right, r₃, -, h⟩ := exists_of_bind_eq_ok h
      exact ih h

/-- Climbing behind `or`: the comparisons joined by `and` come into the open conjunction. The
induction is on the bound. Each turn reads an `and` and one comparison, which leaves less to
read. -/
theorem leads_conjunction {bound : Nat} {c : Chain} (h : r.Sound)
    (hbound : r.pending < bound) :
    Leads (.chain c) r (climb bound (Connective.or.precedence + 1) c.group) fun e _ s =>
      s = .chain { c with group := e } := by
  induction bound generalizing c r with
  | zero => cases hbound
  | succ bound ih =>
    by_cases hand : Connective.ofToken? r.current.token = some .and
    · refine .congr (climb_of_le c.group hand (by decide)) ?_
      refine (leads_lead h hand).bind ?_
      rintro _ r₁ s hsound - ⟨hpending, rfl⟩
      refine (leads_comparison hsound).bind ?_
      rintro d r₂ s hsound hle₂ rfl
      refine (leads_tightest hsound (by omega) (.leaf d)).bind ?_
      rintro _ r₃ s hsound hle₃ ⟨rfl, rfl⟩
      have hbound₃ : r₃.pending < bound := by omega
      exact ih hsound hbound₃
    -- An `or` binds less than what is read here, so climbing ends at it.
    · refine .congr (climb_of_lt c.group ?_) (.pure h rfl)
      rintro k hk
      cases k with
      | and => exact absurd hk hand
      | or => decide

/-- Climbing from the first comparison on: all that is read makes the chain. Behind an `or` that
has been read no `and` is left, so `and` joins what no `or` has closed. -/
theorem leads_chain {bound : Nat} {c : Chain} (h : r.Sound) (hbound : r.pending < bound)
    (hclosed : Connective.ofToken? r.current.token = some .and → c.closed = none) :
    Leads (.chain c) r (climb bound 0 c.clause) fun e r' s =>
      Connective.ofToken? r'.current.token = none ∧
        ∃ c' : Chain, s = .chain c' ∧ c'.clause = e := by
  induction bound generalizing c r with
  | zero => cases hbound
  | succ bound ih =>
    cases hk : Connective.ofToken? r.current.token with
    | none =>
      refine .congr (climb_of_lt c.clause ?_) (.pure h ⟨hk, c, rfl, rfl⟩)
      intro k hk'
      rw [hk] at hk'
      cases hk'
    | some k =>
      refine .congr (climb_of_le c.clause hk (Nat.zero_le _)) ?_
      refine (leads_lead h hk).bind ?_
      rintro _ r₁ s hsound - ⟨hpending, rfl⟩
      refine (leads_comparison hsound).bind ?_
      rintro d r₂ s hsound hle₂ rfl
      have hbound₂ : r₂.pending < bound := by omega
      cases k with
      | and =>
        obtain ⟨closed, group⟩ := c
        obtain rfl : closed = none := hclosed hk
        refine (leads_tightest hsound hbound₂ (.leaf d)).bind ?_
        rintro _ r₃ s hsound hle₃ ⟨rfl, rfl⟩
        have hbound₃ : r₃.pending < bound := by omega
        exact ih hsound hbound₃ fun _ => rfl
      | or =>
        have hright := leads_conjunction (c := (Joint.after c .or).extend d) hsound hbound₂
        refine hright.of_run.bind ?_
        rintro e r₃ s hsound hle₃ ⟨hrun, rfl⟩
        have hbound₃ : r₃.pending < bound := by omega
        -- The operand has taken every `and` that follows, so the loop does not meet one.
        refine ih hsound hbound₃ fun hand => ?_
        exact absurd (precedence_lt_of_climb hrun hand) (by decide)

/-! ### Statements -/

/-- A filter up to its semicolon, which has been looked at. The chain that the stages keep is the
clause that climbing has built. -/
theorem leads_filter (h : r.Sound) (hcurrent : r.current.token = .keyword .filter) :
    Leads .start r filter fun s _ st => st = .finished s := by
  refine (leads_taken h hcurrent rfl).bind ?_
  rintro _ r s hsound - rfl
  refine (leads_comparison hsound).bind ?_
  rintro first r s hsound - rfl
  have hchain : Leads (.chain (Joint.start.extend first)) r (climb (r.pending + 1) 0 (.leaf first))
      fun e r' s => Connective.ofToken? r'.current.token = none ∧
        ∃ c' : Chain, s = .chain c' ∧ c'.clause = e :=
    leads_chain hsound (Nat.lt_succ_self _) fun _ => rfl
  refine .get (hchain.bind ?_)
  rintro _ r s hsound - ⟨hconnective, c, rfl, rfl⟩
  refine .token ?_
  split
  · rename_i hsemicolon
    have hrest : r.rest (.chain c) = r.rest (.finished (.filter c.clause)) := by
      refine Reader.rest_congr ?_ fun hnone => ?_
      · rw [hsemicolon]
        rfl
      · rw [hsemicolon] at hnone
        cases hnone
    exact .of_rest_eq hrest (.pure hsound rfl)
  -- Climbing has ended at no connective, so the chain refuses what stands here.
  · rename_i hsemicolon
    refine leads_unexpected hsound ?_ rfl
    rcases htoken : r.current.token with w | _ | _ | _ | _ | _
    · rw [htoken] at hconnective
      cases w <;> first | rfl | cases hconnective
    all_goals first | rfl | exact absurd htoken hsemicolon

/-- A load up to its semicolon. -/
theorem leads_load (h : r.Sound) (hcurrent : r.current.token = .keyword .load) :
    Leads .start r load fun s _ st => st = .finished s := by
  refine (leads_taken h hcurrent rfl).bind ?_
  rintro _ r s hsound - rfl
  have hpath : ∀ path, Stage.load.step (.string path) = some (.stage (.finished (.load path))) :=
    fun _ => rfl
  refine (leads_string hsound rfl rfl hpath).bind ?_
  rintro path r s hsound - rfl
  exact .pure hsound rfl

/-- An aggregate up to its semicolon: the function decides the stage, and the column fills in what
is left of it. -/
theorem leads_aggregate (h : r.Sound) (hcurrent : r.current.token = .keyword .aggregate) :
    Leads .start r aggregate fun s _ st => st = .finished s := by
  refine (leads_taken h hcurrent rfl).bind ?_
  rintro _ r s hsound - rfl
  have hfunction : ∀ t, Stage.aggregate.step t
      = (AggregateFunction.ofToken? t).map fun f => .stage (.aggregateColumn f) := by
    rintro (w | _ | _ | _ | _ | _)
    · cases w <;> rfl
    all_goals rfl
  refine (leads_choice hsound hfunction rfl).bind ?_
  rintro function r s hsound - rfl
  have hcolumn : Stage.step (.aggregateColumn function) (.keyword .column)
      = some (.stage (.aggregateName function)) := rfl
  refine (leads_word hsound rfl rfl hcolumn).bind ?_
  rintro _ r s hsound - rfl
  have hname : ∀ column, Stage.step (.aggregateName function) (.string column)
      = some (.stage (.finished (.aggregate function column))) := fun _ => rfl
  refine (leads_string hsound rfl rfl hname).bind ?_
  rintro column r s hsound - rfl
  exact .pure hsound rfl

/-- An order up to its semicolon, with the column before the direction. -/
theorem leads_sort (h : r.Sound) (hcurrent : r.current.token = .keyword .sort) :
    Leads .start r sort fun s _ st => st = .finished s := by
  refine (leads_taken h hcurrent rfl).bind ?_
  rintro _ r s hsound - rfl
  have hcolumn : Stage.sort.step (.keyword .column) = some (.stage .sortName) := rfl
  refine (leads_word hsound rfl rfl hcolumn).bind ?_
  rintro _ r s hsound - rfl
  have hname : ∀ column, Stage.sortName.step (.string column)
      = some (.stage (.sortDirection column)) := fun _ => rfl
  refine (leads_string hsound rfl rfl hname).bind ?_
  rintro column r s hsound - rfl
  have hdirection : ∀ t, Stage.step (.sortDirection column) t
      = (Direction.ofToken? t).map fun d => .stage (.finished (.sort column d)) := by
    rintro (w | _ | _ | _ | _ | _)
    · cases w <;> rfl
    all_goals rfl
  refine (leads_choice hsound hdirection rfl).bind ?_
  rintro d r s hsound - rfl
  exact .pure hsound rfl

/-- All of a statement but the semicolon. -/
theorem leads_body (h : r.Sound) : Leads .start r body fun s _ st => st = .finished s := by
  refine .token ?_
  split
  · rename_i hcurrent
    exact leads_load h hcurrent
  · rename_i hcurrent
    exact leads_filter h hcurrent
  · rename_i hcurrent
    exact leads_aggregate h hcurrent
  · rename_i hcurrent
    exact leads_sort h hcurrent
  · rename_i hcurrent
    refine (leads_taken h hcurrent rfl).bind ?_
    rintro _ r s hsound - rfl
    exact .pure hsound rfl
  · -- No other token starts a statement.
    refine leads_unexpected h ?_ rfl
    rcases htoken : r.current.token with w | _ | _ | _ | _ | _
    · cases w <;> first | rfl | (exfalso; simp_all)
    all_goals rfl

/-- The semicolon of a statement is read, or reading stops as it does from the end of the statement
on. -/
theorem rest_finished (h : r.Sound) (s : Statement) :
    (expect .semicolon r).2.Sound ∧
      r.rest (.finished s)
        = ((expect .semicolon r).1.map fun _ => s, (expect .semicolon r).2.parser) := by
  have hexpect : expect .semicolon r
      = if r.current.token.kind = .semicolon then advance r
        else (.error (.fault (.unexpected r.current [.semicolon])), r) := by
    show (if r.current.token.kind = .semicolon then advance else unexpected [.semicolon]) r = _
    split <;> rfl
  -- The semicolon is the only token that the last stage takes.
  by_cases hkind : r.current.token.kind = .semicolon
  · have htoken : r.current.token = .semicolon := by
      cases htoken : r.current.token <;> rw [htoken] at hkind <;> first | rfl | cases hkind
    have hstep : Stage.step (.finished s) r.current.token = some (.statement s) := by
      rw [htoken]
      rfl
    rw [hexpect, if_pos hkind]
    rcases advance_cases h with ⟨stop, r', heq, hsound, herror⟩ |
      ⟨r', heq, hsound, -, -, -, hnext⟩ <;> rw [heq]
    · exact ⟨hsound, herror hstep⟩
    · exact ⟨hsound, hnext hstep⟩
  · rw [hexpect, if_neg hkind]
    exact ⟨h, Reader.rest_of_step_eq_none (step_eq_none rfl rfl hkind)⟩

/-- A call reads a statement as the parser does that the reader stands for, and leaves as much to
read. -/
theorem statement_eq (h : r.Sound) :
    (statement r).2.Sound ∧
      ((statement r).1, (statement r).2.parser)
        = Prod.map (Except.mapError .fault) id r.parser.statement := by
  have hstatement : statement r = match body r with
      | (.ok s, r') => match expect .semicolon r' with
        | (.ok _, r'') => (.ok s, r'')
        | (.error stop, r'') => (.error stop, r'')
      | (.error stop, r') => (.error stop, r') := by
    rw [statement, bind_apply]
    rcases body r with ⟨_ | s, r'⟩
    · rfl
    · dsimp only
      rw [bind_apply]
      rcases expect .semicolon r' with ⟨_ | _, _⟩ <;> rfl
  -- The body leads to the last stage, or stops as reading from the first one does.
  have hbody := leads_body h
  rw [← Reader.rest_start, hstatement]
  rw [Leads] at hbody
  rcases hrun : body r with ⟨stop | s, r'⟩ <;> rw [hrun] at hbody
  · exact ⟨hbody.1, hbody.2.symm⟩
  · obtain ⟨hsound, -, _, rfl, hrest⟩ := hbody
    have hsemicolon := rest_finished hsound s
    rw [hrest]
    dsimp only
    rcases hexpect : expect .semicolon r' with ⟨stop | _, r''⟩ <;> rw [hexpect] at hsemicolon <;>
      exact ⟨hsemicolon.1, hsemicolon.2.symm⟩

end

/-! ### Scripts -/

variable {r : Reader}

/-- What a call returns and leaves is what the parser returns and leaves. -/
theorem statement_cases (h : r.Sound) :
    ∃ r', r'.Sound ∧
      ((∃ e, statement r = (.error (.fault e), r') ∧ r.parser.statement = (.error e, r'.parser)) ∨
        ∃ s, statement r = (.ok s, r') ∧ r.parser.statement = (.ok s, r'.parser)) := by
  obtain ⟨hsound, heq⟩ := statement_eq h
  rcases hrun : statement r with ⟨answer, r'⟩
  rw [hrun] at hsound heq
  rcases hparser : r.parser.statement with ⟨e | s, p⟩ <;> rw [hparser] at heq <;> cases heq
  · exact ⟨r', hsound, .inl ⟨e, rfl, rfl⟩⟩
  · exact ⟨r', hsound, .inr ⟨s, rfl, rfl⟩⟩

/-- A reader has as much left to read as the parser it stands for. -/
theorem Reader.Sound.pending_parser (h : r.Sound) : r.parser.pending = r.pending := by
  have hend : r.parser.atEnd = (r.current.token == .eof) := rfl
  have hahead : r.parser.ahead = r.unread := rfl
  rw [h.pending_eq, Parser.pending, hend, hahead, weight, Nat.add_comm]
  simp

/-- Reading statements to the end of the script is what the parser does. The induction is on the
bound, which stays above what is left, because every statement has a lexeme. -/
theorem statements_eq {bound : Nat} (h : r.Sound) (hbound : r.pending < bound) :
    (statements bound r).1 = r.parser.statements.1.mapError .fault := by
  induction bound generalizing r with
  | zero => cases hbound
  | succ bound ih =>
    have hstatements : statements (bound + 1) r
        = (if r.current.token = .eof then pure []
          else do
            let s ← statement
            return s :: (← statements bound) : Reading (List Statement)) r := rfl
    rw [hstatements]
    by_cases heof : r.current.token = .eof
    · have hend : r.parser.atEnd = true := beq_iff_eq.2 heof
      rw [if_pos heof, Parser.statements_of_atEnd hend]
      rfl
    · have hnot : r.parser.atEnd = false := beq_eq_false_iff_ne.2 heof
      rw [if_neg heof, bind_apply, Parser.statements_eq_readOn hnot, Parser.readOn,
        ← Parser.statement]
      obtain ⟨r', hsound, ⟨e, hrun, hparser⟩ | ⟨s, hrun, hparser⟩⟩ := statement_cases h
      · rw [hrun, hparser]
        rfl
      · -- A statement has been read, so there is less left and the bound still suffices.
        have hlt := Parser.pending_lt_of_statement hnot hparser
        rw [h.pending_parser, hsound.pending_parser] at hlt
        have hmore := ih hsound (by omega)
        rw [hrun, hparser]
        dsimp only
        rw [bind_apply]
        generalize statements bound r' = descent at hmore ⊢
        generalize r'.parser.statements.1 = parsed at hmore ⊢
        rcases descent with ⟨_ | _, _⟩ <;> rcases parsed with _ | _ <;> cases hmore <;> rfl

/-- A reader at the start of a script is sound, and stands for the parser there. -/
theorem Reader.sound_of_ofScript {script : String} {l : Lexeme} {ahead : Feed}
    (h : (Feed.ofScript script).next = (.ok l, ahead)) : Reader.Sound ⟨l, none, ahead⟩ := by
  have hnumeric := Feed.numeric_ofScript script
  have heof : ∀ l, .ok l ∈ (Feed.ofScript script).items → l.token ≠ .eof :=
    fun l hl => (Feed.spelled_of_mem_ofScript hl).ne_eof
  have hstart := Reader.Sound.of_feed hnumeric heof l
  exact hstart.after_next h l

/-- Reading a script by descent is reading it. So the descent stops only where the script is at
fault: it never meets a number that is no numeral, a case it takes to be impossible, or the end of
a bound. -/
theorem parse_eq (script : String) : parse script = (Program.parse script).mapError .fault := by
  have hnext := nextLexeme_eq (Feed.numeric_ofScript script)
  unfold parse ofFeed Program.parse Parser.ofFeed
  rw [hnext]
  rcases hfeed : (Feed.ofScript script).next with ⟨e | l, ahead⟩
  · rfl
  · let r : Reader := ⟨l, none, ahead⟩
    have hstatements : (statements (r.pending + 1) r).1
        = (Parser.mk l ahead).statements.1.mapError .fault :=
      statements_eq (Reader.sound_of_ofScript hfeed) (Nat.lt_succ_self r.pending)
    show ((statements (r.pending + 1) r).1 >>= fun program =>
        if program.isEmpty then .error (.fault .emptyProgram) else .ok program)
      = (Parser.mk l ahead).program.1.mapError .fault
    -- Both check the statements they have read in the same way.
    rw [hstatements]
    unfold Parser.program
    rcases (Parser.mk l ahead).statements with ⟨_ | ss, _⟩
    · rfl
    · cases ss <;> rfl

end Descent

end Roster
