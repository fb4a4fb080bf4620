import Roster.Proofs.Script.Feeds
import Roster.Proofs.Script.Stages
import Roster.Proofs.Script.Unambiguous

/-!
# `Roster.Proofs.Script.Acceptance`: a reader accepts exactly the grammar

* `statement_eq_ok_iff`: reading a statement succeeds exactly if the lexemes from the current
  one on start with a derivation of it, and a lexeme follows. The reader then stands at that
  lexeme: a lexeme counts as read only once the one behind it is known.
* `statement_filter_chain`: for a filter this gives the clause of its chain, with its layers and
  its leaves.
* `exists_trees_of_statements` and `statements_of_trees`: the same for statements up to the end
  of the script, by induction on what is left to read and on the derivations.
* `parse_eq_ok_iff_derives`: a script is a program exactly if it has lexemes and their tokens
  are derived; there is one derivation at most, and every range in the tokens is one in it.
-/

set_option autoImplicit false

namespace Roster

open Grammar

namespace Parser

/-! ### One statement -/

/-- Lexemes that lead from a stage to a statement are read, if a lexeme follows. The induction is on
the lexemes, and the last one is followed by whatever the feed gives next. -/
theorem finish_of_run {ending : Ending} {stage : Stage} {current : Lexeme} {ls : List Lexeme}
    {rest : List LexItem} {s : Statement} {p : Parser}
    (hrun : stage.run ((current :: ls).map Lexeme.token) = some (.statement s))
    (hnext : Feed.next ⟨rest, ending⟩ = (.ok p.current, p.ahead)) :
    finish ending stage current (ls.map .ok ++ rest) = (.ok s, p) := by
  induction ls generalizing stage current with
  | nil =>
    -- The lexeme that ends the statement: what follows it is the next answer of the feed.
    have hstep : stage.step current.token = some (.statement s) := by
      simp only [List.map_cons, List.map_nil, Stage.run] at hrun
      split at hrun <;> simp_all
    obtain ⟨next, ahead⟩ := p
    cases rest with
    | nil =>
      cases ending with
      | eof pos =>
        cases hnext
        simp [finish, hstep, Lexeme.atEnd]
      | stuck c pos => cases hnext
    | cons item rest =>
      change (item, (⟨rest, ending⟩ : Feed)) = (.ok next, ahead) at hnext
      cases hnext
      simp [finish, hstep]
  | cons l ls ih =>
    simp only [List.map_cons, Stage.run] at hrun
    split at hrun
    · cases hrun
    · rename_i next hstep
      have hrest := ih hrun
      simp [finish, hstep, hrest]
    · simp at hrun

/-- What is read as the rest of a statement are lexemes that lead to it, and a lexeme follows. It is
the converse of `finish_of_run`. -/
theorem exists_run_of_finish {ending : Ending} {stage : Stage} {current : Lexeme}
    {items : List LexItem} {s : Statement} {p : Parser}
    (h : finish ending stage current items = (.ok s, p)) :
    ∃ (ls : List Lexeme) (rest : List LexItem), items = ls.map .ok ++ rest ∧
      stage.run ((current :: ls).map Lexeme.token) = some (.statement s) ∧
      Feed.next ⟨rest, ending⟩ = (.ok p.current, p.ahead) := by
  induction items generalizing stage current with
  | nil =>
    unfold finish at h
    split at h <;> cases h
    rename_i hstep
    exact ⟨[], [], rfl, by simp [Stage.run, hstep], rfl⟩
  | cons item items ih =>
    cases item with
    | error fault =>
      unfold finish at h
      split at h <;> cases h
    | ok l =>
      unfold finish at h
      split at h
      · cases h
      · rename_i hstep
        cases h
        -- The current lexeme ends the statement, and the next one is only made current.
        exact ⟨[], .ok l :: items, rfl, by simp [Stage.run, hstep], rfl⟩
      · rename_i next hstep
        obtain ⟨ls, rest, rfl, hrun, hnext⟩ := ih h
        refine ⟨l :: ls, rest, rfl, ?_, hnext⟩
        rw [List.map_cons, Stage.run, hstep]
        exact hrun

/-- Reading a statement is deriving it from the lexemes that are taken. -/
theorem statement_eq_ok_iff {p p' : Parser} {s : Statement} :
    p.statement = (.ok s, p')
      ↔ ∃ (ls : List Lexeme) (rest : List LexItem) (t : StatementTree),
        p.ahead.items = ls.map .ok ++ rest ∧
        t.tokens = (p.current :: ls).map Lexeme.token ∧ t.statement = s ∧
        Feed.next ⟨rest, p.ahead.ending⟩ = (.ok p'.current, p'.ahead) := by
  constructor
  · intro h
    obtain ⟨ls, rest, hitems, hrun, hnext⟩ := exists_run_of_finish h
    obtain ⟨t, htokens, hstatement⟩ := Stage.run_start_iff.1 hrun
    exact ⟨ls, rest, t, hitems, htokens, hstatement, hnext⟩
  · rintro ⟨ls, rest, t, hitems, htokens, hstatement, hnext⟩
    rw [statement, hitems]
    exact finish_of_run (Stage.run_start_iff.2 ⟨t, htokens, hstatement⟩) hnext

/-- A filter is read as the clause of its chain, whatever the chain is and whatever lexeme
follows: the chain is cut at every `or`, the comparisons of each piece are joined by `and` from
left to right, and so are the pieces by `or`. In the clause the right side of every `and` is a
leaf, no `or` stands below an `and` and none on the right of an `or`; and its leaves are the
comparisons in the order of the source. -/
theorem statement_filter_chain (t : ChainTree) (current next : Lexeme) (ls : List Lexeme)
    (rest : List LexItem) (ending : Ending) (ahead : Feed)
    (htokens : (current :: ls).map Lexeme.token
      = .keyword .filter :: (t.tokens ++ [.semicolon]))
    (hnext : Feed.next ⟨rest, ending⟩ = (.ok next, ahead)) :
    ∃ c : Clause Comparison,
      Parser.statement ⟨current, ⟨ls.map .ok ++ rest, ending⟩⟩
        = (.ok (.filter c), ⟨next, ahead⟩) ∧
      c = (t.cut.map fun piece => (piece.map .leaf).joined .and).joined .or ∧
      c.Layered ∧
      c.leaves = t.first :: t.links.map Link.comparison :=
  ⟨t.clause, statement_eq_ok_iff.2 ⟨ls, rest, .filter t, rfl, htokens.symm, rfl, hnext⟩, rfl,
    layered_clause t, leaves_clause t⟩

/-- In `a between 0 and 0 or filter b == "x" and a > 0` the first `and` is that of the range, and
the second binds tighter than `or`. -/
theorem statement_filter_range_or_and :
    let age : Comparison := ⟨"a", .between, .range .zero .zero⟩
    let name : Comparison := ⟨"b", .relation .equal, .text "x"⟩
    let older : Comparison := ⟨"a", .relation .greater, .number .zero⟩
    let chain : ChainTree := ⟨age, [⟨.or, true, name⟩, ⟨.and, false, older⟩]⟩
    let lexeme : Token → Lexeme := fun token => ⟨token, "", .start⟩
    let ls : List Lexeme := (chain.tokens ++ [Token.semicolon]).map lexeme
    let eof := Lexeme.atEnd .start
    (lexeme (.keyword .filter) :: ls).map Lexeme.token
        = .keyword .filter :: (chain.tokens ++ [.semicolon]) ∧
      Feed.next ⟨[], .eof .start⟩ = (.ok eof, ⟨[], .eof .start⟩) ∧
      Parser.statement ⟨lexeme (.keyword .filter), ⟨ls.map .ok ++ [], .eof .start⟩⟩
        = (.ok (.filter (.or (.leaf age) (.and (.leaf name) (.leaf older)))),
          ⟨eof, ⟨[], .eof .start⟩⟩) := by
  intro age name older chain lexeme ls eof
  obtain ⟨c, hstatement, hclause, -, -⟩ :=
    statement_filter_chain chain (lexeme (.keyword .filter)) eof ls [] (.eof .start)
      ⟨[], .eof .start⟩ rfl rfl
  -- The clause is the one that the chain is cut into, by computation.
  have hcut : c = .or (.leaf age) (.and (.leaf name) (.leaf older)) := hclause
  rw [hcut] at hstatement
  exact ⟨rfl, rfl, hstatement⟩

/-! ### Statements to the end of the script -/

/-- At the end there are no more statements. -/
theorem statements_of_atEnd {p : Parser} (h : p.atEnd = true) : p.statements = (.ok [], p) := by
  rw [statements, dif_pos h]

/-- Before the end there are statements exactly if one is read, and more or none behind it. -/
theorem statements_eq_ok_iff {p q : Parser} {ss : List Statement} (hp : p.atEnd = false) :
    p.statements = (.ok ss, q)
      ↔ ∃ s p' rest, p.statement = (.ok s, p') ∧ p'.statements = (.ok rest, q) ∧
        ss = s :: rest := by
  rw [statements, dif_neg (by simp [hp])]
  constructor
  · intro h
    split at h
    · cases h
    · rename_i s p' hs
      split at h
      · cases h
      · rename_i rest q' hrest
        cases h
        exact ⟨s, p', rest, hs, hrest, rfl⟩
  · rintro ⟨s, p', rest, hs, hrest, rfl⟩
    split
    · rename_i heq
      cases hs.symm.trans heq
    · rename_i heq
      cases hs.symm.trans heq
      rw [hrest]

/-- Statements that are read to the end of the script have derivations, and all lexemes up to
the end are theirs. -/
theorem exists_trees_of_statements {p q : Parser} {ss : List Statement} (hp : p.atEnd = false)
    (heof : ∀ l, .ok l ∈ p.ahead.items → l.token ≠ .eof) (h : p.statements = (.ok ss, q)) :
    ∃ (ls : List Lexeme) (pos : Position) (trees : List StatementTree),
      p.ahead.items = ls.map .ok ∧ p.ahead.ending = .eof pos ∧ trees ≠ [] ∧
      trees.flatMap StatementTree.tokens = (p.current :: ls).map Lexeme.token ∧
      trees.map StatementTree.statement = ss := by
  induction ss generalizing p with
  | nil =>
    obtain ⟨_, _, _, _, _, hnil⟩ := (statements_eq_ok_iff hp).1 h
    cases hnil
  | cons s ss ih =>
    obtain ⟨s', p', ss', hs, hrest, heq⟩ := (statements_eq_ok_iff hp).1 h
    cases heq
    obtain ⟨ls, rest, t, hitems, htokens, rfl, hnext⟩ := statement_eq_ok_iff.1 hs
    obtain ⟨current, ⟨items, ending⟩⟩ := p
    obtain ⟨current', ahead'⟩ := p'
    obtain rfl : items = ls.map .ok ++ rest := hitems
    cases rest with
    | nil =>
      -- Nothing follows the statement but the end of the script.
      cases ending with
      | stuck c pos => cases hnext
      | eof pos =>
        cases hnext
        rw [statements_of_atEnd rfl] at hrest
        cases hrest
        exact ⟨ls, pos, [t], List.append_nil _, rfl, by simp, by simpa using htokens, rfl⟩
    | cons item rest =>
      change (item, (⟨rest, ending⟩ : Feed)) = (.ok current', ahead') at hnext
      cases hnext
      have hcurrent : current'.token ≠ .eof := heof current' (by simp)
      obtain ⟨ls', pos, trees, hitems', hending, -, htokens', rfl⟩ :=
        ih (by simpa [atEnd] using hcurrent)
          (fun l hl => heof l (by simpa using .inr (.inr hl))) hrest
      refine ⟨ls ++ current' :: ls', pos, t :: trees, ?_, hending, by simp, ?_, rfl⟩
      · simp_all
      · rw [List.flatMap_cons, htokens, htokens', ← List.map_append, List.cons_append]

/-- The first token of a statement is not the end of the script. -/
theorem atEnd_eq_false_of_tokens {p : Parser} {t : StatementTree} {ls : List Lexeme}
    (h : t.tokens = (p.current :: ls).map Lexeme.token) : p.atEnd = false := by
  have hne := statement_tokens_ne_eof t [] (ls.map Lexeme.token)
  rw [List.append_nil, h, List.map_cons] at hne
  simpa [atEnd] using fun heof => hne (by rw [heof])

/-- Lexemes that are derived as statements are read as these, to the end of the script. The
induction is on the statements. The lexemes of the first one are cut off, and it is shown to be read
by `statement_eq_ok_iff`. -/
theorem statements_of_trees {trees : List StatementTree} {current : Lexeme} {ls : List Lexeme}
    (pos : Position) (hne : trees ≠ [])
    (h : trees.flatMap StatementTree.tokens = (current :: ls).map Lexeme.token) :
    Parser.statements ⟨current, ⟨ls.map .ok, .eof pos⟩⟩
      = (.ok (trees.map StatementTree.statement), ⟨.atEnd pos, ⟨[], .eof pos⟩⟩) := by
  induction trees generalizing current ls with
  | nil => exact absurd rfl hne
  | cons t trees ih =>
    rw [List.flatMap_cons] at h
    -- The lexemes are cut where the tokens of the first statement end.
    obtain ⟨front, back, hsplit, hfront, hback⟩ := List.append_eq_map_iff.1 h
    cases front with
    | nil => exact absurd hfront.symm (statement_tokens_ne_nil t)
    | cons l front =>
      cases hsplit
      refine (statements_eq_ok_iff (atEnd_eq_false_of_tokens hfront.symm)).2 ?_
      cases back with
      | nil =>
        -- Nothing is left, so this is the last statement, and the end of the script follows.
        obtain rfl := statements_tokens_eq_nil_iff.1 hback.symm
        refine ⟨t.statement, ⟨.atEnd pos, ⟨[], .eof pos⟩⟩, [], ?_, statements_of_atEnd rfl, rfl⟩
        exact statement_eq_ok_iff.2 ⟨front, [], t, by simp, hfront.symm, rfl, rfl⟩
      | cons l' back =>
        have hne' : trees ≠ [] := by
          rintro rfl
          cases hback
        refine ⟨t.statement, ⟨l', ⟨back.map .ok, .eof pos⟩⟩, _, ?_, ih hne' hback.symm, rfl⟩
        exact statement_eq_ok_iff.2
          ⟨front, (l' :: back).map .ok, t, by simp, hfront.symm, rfl, rfl⟩

/-! ### Programs -/

/-- A program is statements to the end of the script, at least one. -/
theorem program_eq_ok_iff {p : Parser} {ss : Program} :
    p.program.1 = .ok ss ↔ p.statements.1 = .ok ss ∧ ss ≠ [] := by
  unfold program
  split
  · -- Without a statement the program is empty, which is an error.
    rename_i q hnil
    constructor
    · intro h
      cases h
    · rintro ⟨h, hne⟩
      rw [hnil] at h
      cases h
      exact absurd rfl hne
  · rename_i hne
    constructor
    · intro h
      refine ⟨h, ?_⟩
      rintro rfl
      exact hne p.statements.2 (Prod.ext h rfl)
    · exact And.left

/-- A reader that stands at its first lexeme has the other items of the feed ahead. -/
theorem ofFeed_eq_ok_iff {f : Feed} {p : Parser} :
    ofFeed f = .ok p ↔ f.next = (.ok p.current, p.ahead) := by
  unfold ofFeed
  split
  · rename_i l ahead hnext
    rw [hnext]
    obtain ⟨current, ahead'⟩ := p
    simp
  · rename_i fault ahead hnext
    rw [hnext]
    simp

end Parser

/-- A script that is read as a program has lexemes, and these are derived with that program as
the result. -/
theorem exists_tree_of_parse {script : String} {p : Program}
    (h : Program.parse script = .ok p) :
    ∃ (ls : List Lexeme) (t : ProgramTree), (Feed.ofScript script).lexemes = .ok ls ∧
      t.tokens = ls.map Lexeme.token ∧ t.program = p := by
  obtain ⟨⟨current, ahead⟩, hreader, hprogram⟩ := bind_eq_ok_iff.1 h
  obtain ⟨hstatements, hne⟩ := Parser.program_eq_ok_iff.1 hprogram
  have hnext := Parser.ofFeed_eq_ok_iff.1 hreader
  have heof : ∀ l, .ok l ∈ (Feed.ofScript script).items → l.token ≠ .eof :=
    fun l hl => (Feed.spelled_of_mem_ofScript hl).ne_eof
  cases hfeed : Feed.ofScript script with
  | mk items ending =>
    rw [hfeed] at hnext heof
    cases items with
    | nil =>
      -- A script without lexemes has no statements.
      cases ending with
      | stuck c pos => cases hnext
      | eof pos =>
        cases hnext
        rw [Parser.statements_of_atEnd rfl] at hstatements
        cases hstatements
        exact absurd rfl hne
    | cons item items =>
      change (item, (⟨items, ending⟩ : Feed)) = (.ok current, ahead) at hnext
      cases hnext
      have hcurrent : current.token ≠ .eof := heof current List.mem_cons_self
      obtain ⟨ls, pos, trees, hitems, hending, htrees, htokens, rfl⟩ :=
        Parser.exists_trees_of_statements (by simpa [Parser.atEnd] using hcurrent)
          (fun l hl => heof l (List.mem_cons_of_mem _ hl)) (Prod.ext hstatements rfl)
      refine ⟨current :: ls ++ [.atEnd pos], ⟨trees, htrees⟩, ?_, ?_, rfl⟩
      · refine Feed.lexemes_eq_ok_iff.2 ⟨current :: ls, pos, ?_, hending, rfl⟩
        exact congrArg (.ok current :: ·) hitems
      · rw [List.map_append, ← htokens]
        rfl

/-- A script whose lexemes are derived is read as the program that is derived. -/
theorem parse_of_tree {script : String} {ls : List Lexeme} {t : ProgramTree}
    (hls : (Feed.ofScript script).lexemes = .ok ls) (htokens : t.tokens = ls.map Lexeme.token) :
    Program.parse script = .ok t.program := by
  obtain ⟨ls, pos, hitems, hending, rfl⟩ := Feed.lexemes_eq_ok_iff.1 hls
  have hlast : t.statements.flatMap StatementTree.tokens = ls.map Lexeme.token := by
    rw [ProgramTree.tokens, List.map_append] at htokens
    exact (List.append_inj_left' htokens rfl)
  cases ls with
  | nil => exact absurd (statements_tokens_eq_nil_iff.1 hlast) t.statements_ne_nil
  | cons l ls =>
    have hreader : Parser.ofFeed (Feed.ofScript script)
        = .ok ⟨l, ⟨ls.map .ok, .eof pos⟩⟩ := by
      rw [Parser.ofFeed_eq_ok_iff, Feed.next, hitems, ← hending]
      rfl
    refine bind_eq_ok_iff.2 ⟨_, hreader, Parser.program_eq_ok_iff.2 ⟨?_, ?_⟩⟩
    · rw [Parser.statements_of_trees pos t.statements_ne_nil hlast]
      rfl
    · simpa [ProgramTree.program] using t.statements_ne_nil

/-- A script is read as a program exactly if it has lexemes and their tokens are derived with
that program as the result. A list of tokens has one derivation at most. And wherever a number,
`and` and a number stand in the tokens of a derivation, it has the range of the two there. -/
theorem parse_eq_ok_iff_derives (script : String) (p : Program) :
    (Program.parse script = .ok p
      ↔ ∃ (ls : List Lexeme) (t : ProgramTree), (Feed.ofScript script).lexemes = .ok ls ∧
        t.tokens = ls.map Lexeme.token ∧ t.program = p) ∧
    Function.Injective ProgramTree.tokens ∧
    ∀ (t : ProgramTree) (before after : List Token) (min max : Double),
      t.tokens = before ++ .number min :: .keyword .and :: .number max :: after →
      RangeAt t.comparisons before min max := by
  refine ⟨⟨exists_tree_of_parse, ?_⟩, tokens_injective, ?_⟩
  · rintro ⟨ls, t, hls, htokens, rfl⟩
    exact parse_of_tree hls htokens
  · intro t before after min max h
    exact range_mem_comparisons h

end Roster
