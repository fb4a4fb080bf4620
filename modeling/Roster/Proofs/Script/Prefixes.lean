import Roster.Proofs.Script.Acceptance

/-!
# `Roster.Proofs.Script.Prefixes`: what a program can start with

Tokens are viable if some script that is a program starts with them. This is said of scripts, and
no reader is needed to say it; here it is compared with the stages of statements.
`Stage.read` goes through tokens as parts of statements one after the other, where `Stage.run`
stops at the end of one.

* `accepted_iff`: the tokens of programs are those that lead from the first stage back to it, at
  least one, and the end of the script. Both directions go through the grammar: a derivation of
  statements is read (`read_trees`), and what is read is derived (`exists_trees_of_read`).
* `viable_iff` and `viable_concat_eof_iff`: tokens are viable exactly if they can be read. Every
  stage has a `completion`, tokens that lead back to the first stage and can be written, so what
  can be read has a script that goes on from there.
-/

set_option autoImplicit false

namespace Roster

open Grammar

/-- The stage that a step leads to. Behind a statement the next one starts. -/
def Step.next : Step → Stage
  | stage s => s
  | statement _ => .start

namespace Stage

/-- The stage behind one more token; none if the token does not fit. -/
def next? (stage : Stage) (t : Token) : Option Stage := (stage.step t).map Step.next

/-- Reads tokens from a stage on, as parts of statements one after the other. -/
def read (stage : Stage) (ts : List Token) : Option Stage := ts.foldlM next? stage

variable {stage : Stage} {ts ts' : List Token}

/-- Tokens are read from the front. -/
theorem read_cons (t : Token) (ts : List Token) :
    stage.read (t :: ts) = (stage.next? t).bind fun next => next.read ts :=
  List.foldlM_cons

/-- Tokens behind others are read from the stage that those lead to. -/
theorem read_append (ts ts' : List Token) :
    stage.read (ts ++ ts') = (stage.read ts).bind fun next => next.read ts' :=
  List.foldlM_append

/-- A single token is read by one step. -/
theorem read_singleton (t : Token) : stage.read [t] = stage.next? t := by
  simp [read]

/-- A token that fits is read. -/
theorem read_of_step {t : Token} {step : Step} (h : stage.step t = some step) :
    stage.read [t] = some step.next := by
  rw [read_singleton, next?, h]
  rfl

/-- The end of a script is part of no statement. -/
@[simp] theorem step_eof (stage : Stage) : stage.step .eof = none := by
  cases stage <;> rfl

/-- What can be read has no end of script. -/
theorem eof_notMem_of_read {next : Stage} (h : stage.read ts = some next) : Token.eof ∉ ts := by
  intro hmem
  obtain ⟨before, after, rfl⟩ := List.append_of_mem hmem
  rw [read_append] at h
  obtain ⟨last, -, hlast⟩ := Option.bind_eq_some_iff.1 h
  rw [read_cons, next?, step_eof] at hlast
  cases hlast

/-! ### Programs and what is read -/

/-- Tokens that lead to a statement lead to the start of the next one. -/
theorem read_of_run {s : Statement} (h : stage.run ts = some (.statement s)) :
    stage.read ts = some .start := by
  induction ts generalizing stage with
  | nil => cases h
  | cons t ts ih =>
    unfold run at h
    rw [read_cons, next?]
    split at h
    · cases h
    · rename_i next hstep
      rw [hstep]
      exact ih h
    · -- A run ends with the statement, so no token is left behind it.
      rename_i s' hstep
      rw [hstep]
      split at h
      · rename_i hnil
        rw [hnil]
        rfl
      · cases h

/-- Statements are read one after the other. -/
theorem read_trees (trees : List StatementTree) :
    start.read (trees.flatMap StatementTree.tokens) = some .start := by
  induction trees with
  | nil => rfl
  | cons t trees ih =>
    rw [List.flatMap_cons, read_append, read_of_run (run_tokens t)]
    exact ih

/-- Tokens that lead from a stage to the start of a statement complete statements. The induction is
on the tokens. A semicolon that ends a statement completes its derivation, and the next one starts
with no tokens read. -/
theorem exists_trees_of_read (h : stage.Holds ts) (hread : stage.read ts' = some .start) :
    ∃ trees : List StatementTree, trees.flatMap StatementTree.tokens = ts ++ ts' := by
  induction ts' generalizing stage ts with
  | nil =>
    cases hread
    obtain rfl := h
    exact ⟨[], rfl⟩
  | cons t ts' ih =>
    rw [read_cons, next?] at hread
    cases hstep : stage.step t with
    | none =>
      rw [hstep] at hread
      cases hread
    | some step =>
      rw [hstep] at hread
      cases step with
      | stage next =>
        rw [List.append_cons]
        exact ih (holds_step h hstep) hread
      | statement s =>
        -- What has been read is a statement now, and reading starts again with nothing read.
        obtain ⟨tree, htree, -⟩ := exists_tree_of_step h hstep
        have hstart : start.Holds [] := rfl
        obtain ⟨trees, htrees⟩ := ih hstart hread
        refine ⟨tree :: trees, ?_⟩
        rw [List.flatMap_cons, htree, htrees, List.append_assoc]
        rfl

/-! ### Completions -/

/-- Tokens that complete the statement of which a stage has been read, at least one. -/
def completion : Stage → List Token
  | start => [.keyword .print, .semicolon]
  | load => [.string "", .semicolon]
  | aggregate => [.keyword .count, .keyword .column, .string "", .semicolon]
  | aggregateColumn _ => [.keyword .column, .string "", .semicolon]
  | aggregateName _ => [.string "", .semicolon]
  | sort => [.keyword .column, .string "", .keyword .asc, .semicolon]
  | sortName => [.string "", .keyword .asc, .semicolon]
  | sortDirection _ => [.keyword .asc, .semicolon]
  | repeatable _ | comparison _ | numberAnd .. =>
    [.keyword .column, .string "", .relation .equal, .string "", .semicolon]
  | name _ => [.string "", .relation .equal, .string "", .semicolon]
  | operator .. => [.relation .equal, .string "", .semicolon]
  | literal .. => [.string "", .semicolon]
  | number .. | chain _ | finished _ => [.semicolon]

/-- From every stage the completion leads to the end of a statement. -/
theorem read_completion (stage : Stage) : stage.read stage.completion = some .start := by
  cases stage <;> rfl

/-- No statement is complete before its semicolon. -/
theorem completion_ne_nil (stage : Stage) : stage.completion ≠ [] := by
  cases stage <;> exact List.cons_ne_nil _ _

/-- Every completion can be written. -/
theorem spelled_completion (stage : Stage) : ∀ t ∈ stage.completion, t.Spelled := by
  have hempty : (Token.string "").Spelled := @Token.Spelled.string [] (by simp)
  cases stage <;>
    simp [completion, hempty, Token.Spelled.keyword, Token.Spelled.relation,
      Token.Spelled.semicolon]

end Stage

/-! ### Accepted and viable tokens -/

/-- Whether tokens are all those of some script that is a program, its end included. -/
def Accepted (ts : List Token) : Prop :=
  ∃ (script : String) (ls : List Lexeme) (p : Program),
    (Feed.ofScript script).lexemes = .ok ls ∧ ls.map Lexeme.token = ts ∧
      Program.parse script = .ok p

/-- Whether some script that is a program starts with the tokens. -/
def Viable (ts : List Token) : Prop := ∃ more, Accepted (ts ++ more)

variable {ts : List Token}

/-- The tokens of a program can be written, lead through statements, at least one, and end with
the end of the script. -/
theorem accepted_iff :
    Accepted ts ↔ ∃ front, ts = front ++ [.eof] ∧ (∀ t ∈ front, t.Spelled) ∧ front ≠ [] ∧
      Stage.start.read front = some .start := by
  constructor
  · rintro ⟨script, ls, p, hls, rfl, hp⟩
    -- The tokens are those of a derivation, and the end of the script is cut off on both sides.
    obtain ⟨ls', tree, hls', htokens, -⟩ := exists_tree_of_parse hp
    rw [hls] at hls'
    cases hls'
    obtain ⟨front, q, hitems, -, rfl⟩ := Feed.lexemes_eq_ok_iff.1 hls
    rw [ProgramTree.tokens, List.map_append] at htokens
    have hfront := List.append_inj_left' htokens rfl
    refine ⟨front.map Lexeme.token, List.map_append, ?_, ?_, ?_⟩
    · refine List.forall_mem_map.2 fun l hl => ?_
      have hmem : .ok l ∈ (Feed.ofScript script).items := hitems ▸ List.mem_map_of_mem hl
      exact Feed.spelled_of_mem_ofScript hmem
    · rw [← hfront]
      exact mt statements_tokens_eq_nil_iff.1 tree.statements_ne_nil
    · rw [← hfront]
      exact Stage.read_trees _
  · rintro ⟨front, rfl, hspelled, hne, hread⟩
    -- The tokens are derived, and there is a script that has them.
    have hstart : Stage.start.Holds [] := rfl
    obtain ⟨trees, htrees⟩ := Stage.exists_trees_of_read hstart hread
    obtain ⟨script, ls, hls, htokens⟩ := Feed.exists_script hspelled
    have htrees_ne : trees ≠ [] := by
      rintro rfl
      exact hne htrees.symm
    have hprogram : (⟨trees, htrees_ne⟩ : ProgramTree).tokens = ls.map Lexeme.token := by
      rw [htokens, ProgramTree.tokens, htrees]
      rfl
    exact ⟨script, ls, _, hls, htokens, parse_of_tree hls hprogram⟩

/-- No token that can be written is the end of a script. -/
theorem eof_notMem (h : ∀ t ∈ ts, t.Spelled) : Token.eof ∉ ts :=
  fun hmem => (h _ hmem).ne_eof rfl

/-- If tokens are the front of others and an end, and none of them is an end, the end is behind
them. -/
theorem exists_append_of_append_eof {more front : List Token} (h : ∀ t ∈ ts, t.Spelled)
    (happend : ts ++ more = front ++ [.eof]) :
    ∃ more', more = more' ++ [.eof] ∧ front = ts ++ more' := by
  rcases List.eq_nil_or_concat' more with rfl | ⟨more', t, rfl⟩
  · rw [List.append_nil] at happend
    exact absurd (by simp [happend]) (eof_notMem h)
  · rw [← List.append_assoc] at happend
    obtain ⟨hfront, hlast⟩ := List.append_inj' happend rfl
    exact ⟨more', by rw [hlast], hfront.symm⟩

/-- Tokens that can be written are viable exactly if they can be read. -/
theorem viable_iff (h : ∀ t ∈ ts, t.Spelled) :
    Viable ts ↔ ∃ stage, Stage.start.read ts = some stage := by
  constructor
  · rintro ⟨more, haccepted⟩
    obtain ⟨front, happend, -, -, hread⟩ := accepted_iff.1 haccepted
    obtain ⟨more', -, rfl⟩ := exists_append_of_append_eof h happend
    rw [Stage.read_append] at hread
    obtain ⟨stage, hstage, -⟩ := Option.bind_eq_some_iff.1 hread
    exact ⟨stage, hstage⟩
  · rintro ⟨stage, hstage⟩
    -- The completion is not empty, so this makes a program even of no tokens at all.
    refine ⟨stage.completion ++ [.eof], accepted_iff.2 ⟨ts ++ stage.completion, ?_, ?_, ?_, ?_⟩⟩
    · rw [List.append_assoc]
    · exact List.forall_mem_append.2 ⟨h, stage.spelled_completion⟩
    · exact List.append_ne_nil_of_right_ne_nil _ stage.completion_ne_nil
    · rw [Stage.read_append, hstage]
      exact stage.read_completion

/-- Tokens and the end of the script are viable exactly if they are whole statements. -/
theorem viable_concat_eof_iff (h : ∀ t ∈ ts, t.Spelled) :
    Viable (ts ++ [.eof]) ↔ ts ≠ [] ∧ Stage.start.read ts = some .start := by
  constructor
  · rintro ⟨more, haccepted⟩
    obtain ⟨front, happend, hspelled, hne, hread⟩ := accepted_iff.1 haccepted
    rw [List.append_assoc] at happend
    obtain ⟨more', hmore, rfl⟩ := exists_append_of_append_eof h happend
    cases more' with
    | nil =>
      rw [List.append_nil] at hne hread
      exact ⟨hne, hread⟩
    | cons t more' =>
      cases hmore
      exact absurd (by simp) (eof_notMem hspelled)
  · rintro ⟨hne, hread⟩
    refine ⟨[], accepted_iff.2 ⟨ts, List.append_nil _, h, hne, hread⟩⟩

/-- One more token is viable exactly if the stage that has been reached takes it; and so is the
end of the script behind whole statements. -/
theorem viable_concat_iff {stage : Stage} {t : Token} (h : ∀ t ∈ ts, t.Spelled)
    (ht : t.Spelled ∨ t = .eof) (hread : Stage.start.read ts = some stage) :
    Viable (ts ++ [t]) ↔ (stage.step t).isSome = true ∨ t = .eof ∧ ts ≠ [] ∧ stage = .start := by
  rcases ht with ht | rfl
  · have hconcat : Stage.start.read (ts ++ [t]) = stage.next? t := by
      rw [Stage.read_append, hread, Option.bind_some, Stage.read_singleton]
    rw [viable_iff (List.forall_mem_append.2 ⟨h, by simpa using ht⟩), hconcat, Stage.next?,
      ← Option.isSome_iff_exists, Option.isSome_map]
    simp [ht.ne_eof]
  · rw [viable_concat_eof_iff h, hread]
    simp

/-- What viable tokens start with is viable. -/
theorem Viable.of_append {ts' : List Token} (h : Viable (ts ++ ts')) : Viable ts := by
  obtain ⟨more, haccepted⟩ := h
  exact ⟨ts' ++ more, by rwa [← List.append_assoc]⟩

end Roster
