import Roster.Proofs.Script.Chains

/-!
# `Roster.Proofs.Script.Stages`: what the stages of a statement derive

`Stage.step` reads one token, `Stage.run` reads several. Here both are compared with the grammar.

* `Stage.Holds` says of each stage which tokens have been read to get there, as the front part
  of a derivation. `holds_step` and `exists_tree_of_step` say what one token does to it, and
  `exists_tree_of_run` follows by induction on the tokens. This is soundness.
* `run_tokens`: the tokens of a derivation lead from the first stage to its statement. This is
  completeness. The induction is on the links of a chain; between two links the stage is
  `Stage.afterComparison`, which is another one behind a number than behind a text or a range,
  because behind a number `and` may still make a range of it.
* `run_start_iff` puts the two together.
-/

set_option autoImplicit false

namespace Roster

open Grammar

/-- Reads tokens from a stage on, as parts of one statement. A statement that ends before the
tokens do is not one of all the tokens. -/
def Stage.run (stage : Stage) : List Token → Option Step
  | [] => some (.stage stage)
  | t :: ts =>
    match stage.step t with
    | none => none
    | some (.stage next) => next.run ts
    | some (.statement s) => if ts = [] then some (.statement s) else none

/-- The tokens read of a filter when its next comparison is to come. -/
def Joint.Holds (ts : List Token) : Joint → Prop
  | start => ts = [.keyword .filter]
  | after c k => ∃ (t : ChainTree) (repeated : Bool), t.chain = c ∧
    ts = .keyword .filter :: (t.tokens ++ leadTokens k repeated)

namespace Stage

/-- The tokens read when a stage has been reached. -/
def Holds (ts : List Token) : Stage → Prop
  | start => ts = []
  | load => ts = [.keyword .load]
  | aggregate => ts = [.keyword .aggregate]
  | aggregateColumn f => ts = [.keyword .aggregate, f.token]
  | aggregateName f => ts = [.keyword .aggregate, f.token, .keyword .column]
  | sort => ts = [.keyword .sort]
  | sortName => ts = [.keyword .sort, .keyword .column]
  | sortDirection column => ts = [.keyword .sort, .keyword .column, .string column]
  | repeatable joint => ∃ (t : ChainTree) (k : Connective), joint = .after t.chain k ∧
    ts = .keyword .filter :: (t.tokens ++ [k.token])
  | comparison joint => joint.Holds ts
  | name joint => ∃ before, joint.Holds before ∧ ts = before ++ [.keyword .column]
  | operator joint column =>
    ∃ before, joint.Holds before ∧ ts = before ++ [.keyword .column, .string column]
  | literal joint column op =>
    ∃ before, joint.Holds before ∧ ts = before ++ [.keyword .column, .string column, op.token]
  | number joint column op value =>
    ∃ before, joint.Holds before ∧ ts = before ++ Comparison.tokens ⟨column, op, .number value⟩
  | numberAnd joint column op value =>
    ∃ before, joint.Holds before ∧
      ts = before ++ Comparison.tokens ⟨column, op, .number value⟩ ++ [.keyword .and]
  | chain c => ∃ t : ChainTree, t.chain = c ∧ ts = .keyword .filter :: t.tokens
  | finished s => ∃ t : StatementTree, t.statement = s ∧ t.tokens = ts ++ [.semicolon]

end Stage

namespace Joint

/-- A comparison that is read where one is to come makes a longer chain. -/
theorem Holds.extend {joint : Joint} {before : List Token} (h : joint.Holds before)
    (c : Comparison) :
    ∃ t : ChainTree, t.chain = joint.extend c ∧
      before ++ c.tokens = .keyword .filter :: t.tokens := by
  cases joint with
  | start =>
    obtain rfl := h
    exact ⟨⟨c, []⟩, rfl, by simp [ChainTree.tokens]⟩
  | after left k =>
    obtain ⟨t, repeated, rfl, rfl⟩ := h
    refine ⟨⟨t.first, t.links ++ [⟨k, repeated, c⟩]⟩, ?_, ?_⟩
    · simp [ChainTree.chain, Link.addTo]
    · simp [ChainTree.tokens, Link.tokens, Link.headTokens]

/-- A comparison that is read is followed by another one behind a connective. -/
theorem Holds.next {joint : Joint} {before : List Token} (h : joint.Holds before)
    (c : Comparison) (k : Connective) (repeated : Bool) :
    (Joint.after (joint.extend c) k).Holds
      (before ++ c.tokens ++ leadTokens k repeated) := by
  obtain ⟨t, ht, htokens⟩ := h.extend c
  exact ⟨t, repeated, ht, by rw [htokens]; rfl⟩

end Joint

namespace Stage

/-! ### Soundness -/

/-- One token takes a stage to one that holds of the tokens read by then. There is one case for each
step that a stage has, grouped by what they say of the tokens. -/
theorem holds_step {stage next : Stage} {ts : List Token} {t : Token} (h : stage.Holds ts)
    (hs : stage.step t = some (.stage next)) : next.Holds (ts ++ [t]) := by
  unfold step at hs
  split at hs <;> cases hs
  -- The tokens of a statement that is no filter are fixed by its stage.
  case h_1 | h_2 | h_3 | h_4 | h_7 | h_8 | h_9 | h_10 | h_12 | h_13 =>
    obtain rfl := h
    rfl
  -- `print`, `load` and a path, `aggregate` and its column, `sort` and either direction: what
  -- has been read then lacks nothing but the semicolon.
  case h_5 =>
    obtain rfl := h
    exact ⟨.print, rfl, rfl⟩
  case h_6 path =>
    obtain rfl := h
    exact ⟨.load path, rfl, rfl⟩
  case h_11 f column =>
    obtain rfl := h
    exact ⟨.aggregate f column, rfl, rfl⟩
  case h_14 column =>
    obtain rfl := h
    exact ⟨.sort column .ascending, rfl, rfl⟩
  case h_15 column =>
    obtain rfl := h
    exact ⟨.sort column .descending, rfl, rfl⟩
  -- Behind a connective the repeated `filter` may stand or not; the joint knows only the chain.
  case h_16 =>
    obtain ⟨t, k, rfl, rfl⟩ := h
    exact ⟨t, true, rfl, by simp [leadTokens]⟩
  case h_17 =>
    obtain ⟨t, k, rfl, rfl⟩ := h
    exact ⟨_, ⟨t, false, rfl, rfl⟩, rfl⟩
  -- Up to its value a comparison is read as it is written.
  case h_18 => exact ⟨ts, h, rfl⟩
  case h_19 | h_20 | h_21 =>
    obtain ⟨before, hb, rfl⟩ := h
    exact ⟨before, hb, by simp [Operator.token]⟩
  case h_22 =>
    obtain ⟨before, hb, rfl⟩ := h
    exact ⟨before, hb, by simp [Comparison.tokens, Comparison.headTokens, Literal.tokens]⟩
  -- A text ends its comparison at once.
  case h_23 joint column op s =>
    obtain ⟨before, hb, rfl⟩ := h
    obtain ⟨t, ht, htokens⟩ := hb.extend ⟨column, op, .text s⟩
    refine ⟨t, ht, ?_⟩
    rw [← htokens, List.append_assoc]
    rfl
  -- Behind a number `and` leaves open what it is, `or` ends the comparison, and the token after
  -- `and` settles it: a second number makes a range, `filter` or `column` another comparison.
  case h_25 =>
    obtain ⟨before, hb, rfl⟩ := h
    exact ⟨before, hb, rfl⟩
  case h_26 joint column op n =>
    obtain ⟨before, hb, rfl⟩ := h
    obtain ⟨t, ht, htokens⟩ := hb.extend ⟨column, op, .number n⟩
    refine ⟨t, .or, by rw [ht], ?_⟩
    rw [htokens]
    rfl
  case h_27 joint column op min max =>
    obtain ⟨before, hb, rfl⟩ := h
    obtain ⟨t, ht, htokens⟩ := hb.extend ⟨column, op, .range min max⟩
    refine ⟨t, ht, ?_⟩
    rw [← htokens]
    simp [Comparison.tokens, Comparison.headTokens, Literal.tokens]
  case h_28 joint column op n =>
    obtain ⟨before, hb, rfl⟩ := h
    have hnext := hb.next ⟨column, op, .number n⟩ .and true
    rwa [show leadTokens .and true = [.keyword .and] ++ [.keyword .filter] from rfl,
      ← List.append_assoc] at hnext
  case h_29 joint column op n =>
    obtain ⟨before, hb, rfl⟩ := h
    exact ⟨_, hb.next ⟨column, op, .number n⟩ .and false, rfl⟩
  -- Behind a text or a range a connective is just that.
  case h_31 | h_32 =>
    obtain ⟨t, rfl, rfl⟩ := h
    exact ⟨t, _, rfl, rfl⟩

/-- A semicolon that ends a statement ends a derivation of it. There are three places where one can
stand: behind a number, behind a chain, and behind all that is needed of another statement. -/
theorem exists_tree_of_step {stage : Stage} {ts : List Token} {t : Token} {s : Statement}
    (h : stage.Holds ts) (hs : stage.step t = some (.statement s)) :
    ∃ tree : StatementTree, tree.tokens = ts ++ [t] ∧ tree.statement = s := by
  unfold step at hs
  split at hs <;> cases hs
  -- The semicolon behind a number, behind a text or a range, and behind any other statement.
  case h_24 joint column op n =>
    obtain ⟨before, hb, rfl⟩ := h
    obtain ⟨t, ht, htokens⟩ := hb.extend ⟨column, op, .number n⟩
    refine ⟨.filter t, ?_, ?_⟩
    · rw [htokens]
      rfl
    · rw [StatementTree.statement, ← clause_chain, ht]
  case h_30 =>
    obtain ⟨t, rfl, rfl⟩ := h
    exact ⟨.filter t, rfl, by rw [StatementTree.statement, clause_chain]⟩
  case h_33 =>
    obtain ⟨tree, hs, htokens⟩ := h
    exact ⟨tree, htokens, hs⟩

/-- Tokens that lead from a stage to a statement complete a derivation of it. -/
theorem exists_tree_of_run {stage : Stage} {ts ts' : List Token} {s : Statement}
    (h : stage.Holds ts) (hr : stage.run ts' = some (.statement s)) :
    ∃ tree : StatementTree, tree.tokens = ts ++ ts' ∧ tree.statement = s := by
  induction ts' generalizing stage ts with
  | nil => cases hr
  | cons t ts' ih =>
    unfold run at hr
    split at hr
    · cases hr
    · rename_i next hs
      obtain ⟨tree, htokens, hstatement⟩ := ih (holds_step h hs) hr
      exact ⟨tree, by rw [htokens, List.append_assoc]; rfl, hstatement⟩
    · rename_i s' hs
      split at hr <;> cases hr
      rename_i hnil
      rw [hnil]
      exact exists_tree_of_step h hs

/-! ### Completeness -/

/-- The stage behind a comparison. A number may still turn out to start a range. -/
def afterComparison (joint : Joint) (c : Comparison) : Stage :=
  match c.literal with
  | .number n => number joint c.column c.operator n
  | _ => chain (joint.extend c)

/-- Tokens that lead to a stage are followed by what that stage reads. -/
theorem run_append {stage next : Stage} {ts : List Token} (ts' : List Token)
    (h : stage.run ts = some (.stage next)) : stage.run (ts ++ ts') = next.run ts' := by
  induction ts generalizing stage with
  | nil =>
    cases h
    rfl
  | cons t ts ih =>
    unfold run at h
    split at h
    · cases h
    · rename_i next' hs
      rw [List.cons_append, run, hs]
      exact ih h
    · split at h <;> cases h

/-- What is read of a comparison behind its first word. -/
theorem run_name (joint : Joint) (c : Comparison) :
    (name joint).run (.string c.column :: c.operator.token :: c.literal.tokens)
      = some (.stage (afterComparison joint c)) := by
  obtain ⟨column, operator, literal⟩ := c
  cases operator <;> cases literal <;> rfl

/-- A link is read behind a comparison, whatever the value of that is. -/
theorem run_link (joint : Joint) (c : Comparison) (l : Link) :
    (afterComparison joint c).run l.tokens
      = some (.stage (afterComparison (.after (joint.extend c) l.connective) l.comparison)) := by
  obtain ⟨k, repeated, comparison⟩ := l
  -- Only here the value of the comparison before matters: behind a number `and` takes the stage
  -- `numberAnd` on its way, and still the chain that is left is the same.
  have hlead : (afterComparison joint c).run (leadTokens k repeated ++ [.keyword .column])
      = some (.stage (name (.after (joint.extend c) k))) := by
    obtain ⟨column, operator, literal⟩ := c
    cases k <;> cases repeated <;> cases literal <;> rfl
  rw [← run_name, ← run_append _ hlead]
  simp [Link.tokens, Link.headTokens, Comparison.tokens, Comparison.headTokens]

/-- The links behind a comparison and the semicolon are read to the end of the filter. -/
theorem run_links (joint : Joint) (c : Comparison) (links : List Link) :
    (afterComparison joint c).run (links.flatMap Link.tokens ++ [.semicolon])
      = some (.statement (.filter (links.foldl Link.addTo (joint.extend c)).clause)) := by
  induction links generalizing joint c with
  | nil =>
    obtain ⟨column, operator, literal⟩ := c
    cases literal <;> rfl
  | cons l links ih =>
    rw [List.flatMap_cons, List.append_assoc, run_append _ (run_link joint c l), ih]
    rfl

/-- The tokens of a derivation lead to its statement. -/
theorem run_tokens (t : StatementTree) : start.run t.tokens = some (.statement t.statement) := by
  cases t with
  | load path => rfl
  | filter t =>
    -- The first comparison has no connective before it, and is read on its own.
    have hfirst : start.run (.keyword .filter :: t.first.tokens)
        = some (.stage (afterComparison .start t.first)) := run_name .start t.first
    have hlinks := run_links .start t.first t.links
    rw [← run_append _ hfirst] at hlinks
    rw [StatementTree.tokens, ChainTree.tokens, List.append_assoc, ← List.cons_append, hlinks,
      StatementTree.statement, ← clause_chain]
    rfl
  | aggregate function column => cases function <;> rfl
  | sort column direction => cases direction <;> rfl
  | print => rfl

/-- Reading tokens as one statement is deriving them from it. -/
theorem run_start_iff {ts : List Token} {s : Statement} :
    start.run ts = some (.statement s)
      ↔ ∃ t : StatementTree, t.tokens = ts ∧ t.statement = s := by
  constructor
  · have hstart : start.Holds [] := rfl
    exact exists_tree_of_run hstart
  · rintro ⟨t, rfl, rfl⟩
    exact run_tokens t

end Stage

end Roster
