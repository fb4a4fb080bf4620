import Roster.Proofs.Script.Grammar

/-!
# `Roster.Proofs.Script.Unambiguous`: one derivation for each list of tokens

* `tokens_injective`: two derivations of programs with the same tokens are equal.
* `range_mem_comparisons`: wherever a number, `and` and a number stand in the tokens of a
  derivation, the derivation has a range there, and no number that ends a comparison.

The word `and` is what makes both worth a proof: it separates the two numbers of a range and it
joins comparisons. The first lemmas cancel the tokens of one part from the front of a longer
list. They need to know that no range goes on behind the part (`ContinuesRange`), and that is
so everywhere in a derivation, because a link starts with `column` or `filter` behind its
connective (`not_continuesRange_links`).
-/

set_option autoImplicit false

namespace Roster.Grammar

/-- Tokens that make a range of a number before them. -/
def ContinuesRange (ts : List Token) : Prop :=
  ∃ max rest, ts = .keyword .and :: .number max :: rest

/-- Operators with the same token are the same. -/
theorem operator_token_injective : Function.Injective Operator.token := by
  intro o o' h
  cases o <;> cases o' <;> simp_all [Operator.token]

/-- Connectives with the same token are the same. -/
theorem connective_token_injective : Function.Injective Connective.token := by
  intro k k' h
  cases k <;> cases k' <;> simp_all [Connective.token]

/-- What follows a chain in a statement makes no range of a number before it. -/
theorem not_continuesRange_links (links : List Link) (more : List Token) :
    ¬ ContinuesRange (links.flatMap Link.tokens ++ .semicolon :: more) := by
  rintro ⟨max, rest, h⟩
  cases links with
  | nil => simp at h
  | cons l links =>
    obtain ⟨k, repeated, c⟩ := l
    cases repeated <;>
      simp [Link.tokens, Link.headTokens, leadTokens, Comparison.tokens, Comparison.headTokens] at h

/-! ### Cancelling tokens from the front -/

/-- A value is cut off in one way, if what follows continues no range. -/
theorem literal_tokens_append_inj {v v' : Literal} {rest rest' : List Token}
    (h : v.tokens ++ rest = v'.tokens ++ rest') (hr : ¬ ContinuesRange rest)
    (hr' : ¬ ContinuesRange rest') : v = v' ∧ rest = rest' := by
  cases v <;> cases v' <;> simp [Literal.tokens] at h
  -- A number and a range start alike; then what follows the number would continue the range.
  case number.number => simp [h]
  case number.range => exact absurd ⟨_, _, h.2⟩ hr
  case text.text => simp [h]
  case range.number => exact absurd ⟨_, _, h.2.symm⟩ hr'
  case range.range => simp [h]

/-- A comparison is cut off in one way, if what follows continues no range. -/
theorem comparison_tokens_append_inj {c c' : Comparison} {rest rest' : List Token}
    (h : c.tokens ++ rest = c'.tokens ++ rest') (hr : ¬ ContinuesRange rest)
    (hr' : ¬ ContinuesRange rest') : c = c' ∧ rest = rest' := by
  obtain ⟨column, operator, literal⟩ := c
  obtain ⟨column', operator', literal'⟩ := c'
  simp only [Comparison.tokens, Comparison.headTokens, List.cons_append, List.nil_append,
    List.cons.injEq, Token.string.injEq, true_and] at h
  obtain ⟨hcolumn, hoperator, h⟩ := h
  obtain ⟨hliteral, hrest⟩ := literal_tokens_append_inj h hr hr'
  exact ⟨by rw [hcolumn, operator_token_injective hoperator, hliteral], hrest⟩

/-- A link is cut off in one way, if what follows continues no range. -/
theorem link_tokens_append_inj {l l' : Link} {rest rest' : List Token}
    (h : l.tokens ++ rest = l'.tokens ++ rest') (hr : ¬ ContinuesRange rest)
    (hr' : ¬ ContinuesRange rest') : l = l' ∧ rest = rest' := by
  obtain ⟨k, repeated, c⟩ := l
  obtain ⟨k', repeated', c'⟩ := l'
  simp only [Link.tokens, Link.headTokens, leadTokens, List.cons_append, List.cons.injEq,
    List.append_assoc] at h
  obtain ⟨hk, h⟩ := h
  -- A repeated `filter` shows: without it the comparison's own `column` comes next.
  have hrepeated : repeated = repeated' := by
    cases repeated <;> cases repeated' <;>
      simp [Comparison.tokens, Comparison.headTokens] at h ⊢
  subst hrepeated
  obtain ⟨hc, hrest⟩ := comparison_tokens_append_inj (List.append_cancel_left h) hr hr'
  exact ⟨by rw [connective_token_injective hk, hc], hrest⟩

/-- The links of a chain are cut off in one way: the semicolon shows their end. The induction is on
the links, and each of them is told from what follows by `link_tokens_append_inj`. -/
theorem links_tokens_append_inj {links links' : List Link} {more more' : List Token}
    (h : links.flatMap Link.tokens ++ .semicolon :: more
      = links'.flatMap Link.tokens ++ .semicolon :: more') : links = links' ∧ more = more' := by
  induction links generalizing links' with
  | nil =>
    cases links' with
    | nil => simpa using h
    | cons l' links' =>
      obtain ⟨k', repeated', c'⟩ := l'
      cases k' <;> simp [Link.tokens, Link.headTokens, leadTokens, Connective.token] at h
  | cons l links ih =>
    cases links' with
    | nil =>
      obtain ⟨k, repeated, c⟩ := l
      cases k <;> simp [Link.tokens, Link.headTokens, leadTokens, Connective.token] at h
    | cons l' links' =>
      simp only [List.flatMap_cons, List.append_assoc] at h
      -- Behind a link stand links or the semicolon, which continue no range.
      obtain ⟨hl, h⟩ := link_tokens_append_inj h (not_continuesRange_links _ _)
        (not_continuesRange_links _ _)
      obtain ⟨hlinks, hmore⟩ := ih h
      exact ⟨by rw [hl, hlinks], hmore⟩

/-- A statement is cut off in one way. Its first word says what statement it is, and the parts of
the same statement are compared one by one. -/
theorem statement_tokens_append_inj {t t' : StatementTree} {more more' : List Token}
    (h : t.tokens ++ more = t'.tokens ++ more') : t = t' ∧ more = more' := by
  -- The first word tells which statement it is.
  cases t <;> cases t' <;> simp [StatementTree.tokens] at h
  case load.load => simp [h]
  case filter.filter chain chain' =>
    simp only [ChainTree.tokens, List.append_assoc] at h
    obtain ⟨hfirst, h⟩ := comparison_tokens_append_inj h (not_continuesRange_links _ _)
      (not_continuesRange_links _ _)
    obtain ⟨hlinks, hmore⟩ := links_tokens_append_inj h
    exact ⟨congrArg _ (ChainTree.ext hfirst hlinks), hmore⟩
  case aggregate.aggregate function column function' column' =>
    obtain ⟨hfunction, hcolumn, hmore⟩ := h
    have : function = function' := by
      cases function <;> cases function' <;> simp_all [AggregateFunction.token]
    exact ⟨by rw [this, hcolumn], hmore⟩
  case sort.sort column direction column' direction' =>
    obtain ⟨hcolumn, hdirection, hmore⟩ := h
    have : direction = direction' := by
      cases direction <;> cases direction' <;> simp_all [Direction.token]
    exact ⟨by rw [this, hcolumn], hmore⟩
  case print.print => simpa using h

/-- No statement is empty. -/
theorem statement_tokens_ne_nil (t : StatementTree) : t.tokens ≠ [] := by
  cases t <;> simp [StatementTree.tokens]

/-- Statements have tokens, if there are statements. -/
theorem statements_tokens_eq_nil_iff {trees : List StatementTree} :
    trees.flatMap StatementTree.tokens = [] ↔ trees = [] := by
  cases trees <;> simp [statement_tokens_ne_nil]

/-- No statement starts with the end of the script. -/
theorem statement_tokens_ne_eof (t : StatementTree) (more rest : List Token) :
    t.tokens ++ more ≠ .eof :: rest := by
  cases t <;> simp [StatementTree.tokens]

/-- Statements are cut off in one way: the end of the script shows where they end. -/
theorem statements_tokens_inj {trees trees' : List StatementTree}
    (h : trees.flatMap StatementTree.tokens ++ [.eof]
      = trees'.flatMap StatementTree.tokens ++ [.eof]) : trees = trees' := by
  induction trees generalizing trees' with
  | nil =>
    cases trees' with
    | nil => rfl
    | cons t' trees' =>
      rw [List.flatMap_cons, List.append_assoc] at h
      exact absurd h.symm (statement_tokens_ne_eof _ _ _)
  | cons t trees ih =>
    cases trees' with
    | nil =>
      rw [List.flatMap_cons, List.append_assoc] at h
      exact absurd h (statement_tokens_ne_eof _ _ _)
    | cons t' trees' =>
      simp only [List.flatMap_cons, List.append_assoc] at h
      obtain ⟨ht, h⟩ := statement_tokens_append_inj h
      rw [ht, ih h]

/-- Two derivations of programs with the same tokens are equal. -/
theorem tokens_injective : Function.Injective ProgramTree.tokens := by
  rintro ⟨trees, hne⟩ ⟨trees', hne'⟩ h
  obtain rfl : trees = trees' := statements_tokens_inj h
  rfl

/-! ### Ranges in their places -/

/-- Tokens among which there is no number lie wholly before a place with a number. -/
theorem append_eq_append_number (front : List Token) {rest before after : List Token}
    {n : Double} (hfront : ∀ m, .number m ∉ front)
    (h : front ++ rest = before ++ .number n :: after) :
    ∃ before', before = front ++ before' ∧ rest = before' ++ .number n :: after := by
  induction front generalizing before with
  | nil => exact ⟨before, rfl, h⟩
  | cons t front ih =>
    cases before with
    | nil =>
      -- The place would be the first of the tokens, which is no number.
      simp only [List.cons_append, List.nil_append, List.cons.injEq] at h
      exact absurd (List.mem_cons.2 (.inl h.1.symm)) (hfront n)
    | cons t' before =>
      simp only [List.cons_append, List.cons.injEq] at h
      obtain ⟨before', hb, hr⟩ := ih (fun m hm => hfront m (List.mem_cons_of_mem _ hm)) h.2
      exact ⟨before', by rw [hb, h.1, List.cons_append], hr⟩

/-- A range in the tokens of a value and what follows it is that value, or stands behind it. -/
theorem literal_range_cases {v : Literal} {rest before after : List Token} {min max : Double}
    (hrest : ¬ ContinuesRange rest)
    (h : v.tokens ++ rest = before ++ ((Literal.range min max).tokens ++ after)) :
    before = [] ∧ v = .range min max ∨
      ∃ before', before = v.tokens ++ before' ∧
        rest = before' ++ ((Literal.range min max).tokens ++ after) := by
  cases v with
  | text s =>
    exact .inr (append_eq_append_number _ (by simp [Literal.tokens]) h)
  | number n =>
    cases before with
    | nil =>
      simp only [Literal.tokens, List.cons_append, List.nil_append, List.cons.injEq] at h
      exact absurd ⟨_, _, h.2⟩ hrest
    | cons t before =>
      simp only [Literal.tokens, List.cons_append, List.nil_append, List.cons.injEq] at h
      exact .inr ⟨before, by simp [Literal.tokens, h.1], h.2⟩
  | range a b =>
    -- The place is the start of this range, its `and`, its second number, or behind all three.
    match before with
    | [] =>
      simp only [Literal.tokens, List.cons_append, List.nil_append, List.cons.injEq,
        Token.number.injEq] at h
      exact .inl ⟨rfl, by rw [h.1, h.2.2.1]⟩
    | [t] => simp [Literal.tokens] at h
    | [t, t'] =>
      simp only [Literal.tokens, List.cons_append, List.nil_append, List.cons.injEq] at h
      exact absurd ⟨_, _, h.2.2.2⟩ hrest
    | t :: t' :: t'' :: before =>
      simp only [Literal.tokens, List.cons_append, List.nil_append, List.cons.injEq] at h
      exact .inr ⟨before, by simp [Literal.tokens, h.1, h.2.1, h.2.2.1], h.2.2.2⟩

/-- A range in the tokens of a comparison and what follows it is the value of the comparison, or
stands behind it. -/
theorem comparison_range_cases {c : Comparison} {rest before after : List Token}
    {min max : Double} (hrest : ¬ ContinuesRange rest)
    (h : c.tokens ++ rest = before ++ ((Literal.range min max).tokens ++ after)) :
    before = c.headTokens ∧ c.literal = .range min max ∨
      ∃ before', before = c.tokens ++ before' ∧
        rest = before' ++ ((Literal.range min max).tokens ++ after) := by
  rw [Comparison.tokens, List.append_assoc] at h
  have hhead : ∀ m, .number m ∉ c.headTokens := by
    intro m
    cases hop : c.operator <;> simp [Comparison.headTokens, Operator.token, hop]
  obtain ⟨before', rfl, hv⟩ := append_eq_append_number _ hhead h
  rcases literal_range_cases hrest hv with ⟨rfl, hrange⟩ | ⟨before'', rfl, hafter⟩
  · exact .inl ⟨List.append_nil _, hrange⟩
  · exact .inr ⟨before'', by rw [Comparison.tokens, List.append_assoc], hafter⟩

/-- A range in the tokens of links, their semicolon and what follows it is the value of one of
the links, or stands behind the semicolon. -/
theorem links_range_cases (start : List Token) {links : List Link}
    {more before after : List Token} {min max : Double}
    (h : links.flatMap Link.tokens ++ .semicolon :: more
      = before ++ ((Literal.range min max).tokens ++ after)) :
    RangeAt (linkComparisons start links) (start ++ before) min max ∨
      ∃ before', before = links.flatMap Link.tokens ++ .semicolon :: before' ∧
        more = before' ++ ((Literal.range min max).tokens ++ after) := by
  induction links generalizing start before with
  | nil =>
    obtain ⟨before', rfl, hmore⟩ :=
      append_eq_append_number [.semicolon] (by simp) h
    exact .inr ⟨before', rfl, hmore⟩
  | cons l links ih =>
    simp only [List.flatMap_cons, Link.tokens, List.append_assoc] at h
    have hlead : ∀ m, .number m ∉ l.headTokens := by
      intro m
      cases hk : l.connective <;> cases hr : l.repeated <;>
        simp [Link.headTokens, leadTokens, Connective.token, hk, hr]
    -- The place is in the comparison of this link, in one of the links behind it, or further on.
    obtain ⟨before₁, rfl, h₁⟩ := append_eq_append_number _ hlead h
    rcases comparison_range_cases (not_continuesRange_links links more) h₁ with
      ⟨rfl, hrange⟩ | ⟨before₂, rfl, h₂⟩
    · exact .inl ⟨start ++ l.headTokens, l.comparison, List.mem_cons_self,
        (List.append_assoc _ _ _).symm, hrange⟩
    · rcases ih (start ++ l.tokens) h₂ with ⟨b, c, hmem, hb, hc⟩ | ⟨before₃, rfl, h₃⟩
      · refine .inl ⟨b, c, List.mem_cons_of_mem _ hmem, ?_, hc⟩
        rw [← hb]
        simp only [Link.tokens, List.append_assoc]
      · refine .inr ⟨before₃, ?_, h₃⟩
        simp only [List.flatMap_cons, Link.tokens, List.append_assoc]

/-- A range in the tokens of a statement and what follows it is a value of the statement, or
stands behind it. -/
theorem statement_range_cases (start : List Token) {t : StatementTree}
    {more before after : List Token} {min max : Double}
    (h : t.tokens ++ more = before ++ ((Literal.range min max).tokens ++ after)) :
    RangeAt (t.comparisonsAfter start) (start ++ before) min max ∨
      ∃ before', before = t.tokens ++ before' ∧
        more = before' ++ ((Literal.range min max).tokens ++ after) := by
  cases t with
  | filter chain =>
    simp only [StatementTree.tokens, ChainTree.tokens, List.cons_append, List.append_assoc,
      List.nil_append] at h
    obtain ⟨before₁, rfl, h₁⟩ :=
      append_eq_append_number [.keyword .filter] (by simp) h
    rcases comparison_range_cases (not_continuesRange_links _ _) h₁ with
      ⟨rfl, hrange⟩ | ⟨before₂, rfl, h₂⟩
    · exact .inl ⟨_, _, List.mem_cons_self, (List.append_assoc _ _ _).symm, hrange⟩
    · rcases links_range_cases (start ++ [.keyword .filter] ++ chain.first.tokens) h₂
        with ⟨b, c, hmem, hb, hc⟩ | ⟨before₃, rfl, h₃⟩
      · refine .inl ⟨b, c, List.mem_cons_of_mem _ hmem, ?_, hc⟩
        rw [← hb]
        simp only [List.append_assoc]
      · refine .inr ⟨before₃, ?_, h₃⟩
        simp only [StatementTree.tokens, ChainTree.tokens, List.cons_append, List.append_assoc,
          List.nil_append]
  | load path => exact .inr (append_eq_append_number _ (by simp [StatementTree.tokens]) h)
  | aggregate function column =>
    refine .inr (append_eq_append_number _ ?_ h)
    cases function <;> simp [StatementTree.tokens, AggregateFunction.token]
  | sort column direction =>
    refine .inr (append_eq_append_number _ ?_ h)
    cases direction <;> simp [StatementTree.tokens, Direction.token]
  | print => exact .inr (append_eq_append_number _ (by simp [StatementTree.tokens]) h)

/-- A range in the tokens of statements is a value of one of them. -/
theorem statements_range (start : List Token) {trees : List StatementTree}
    {before after : List Token} {min max : Double}
    (h : trees.flatMap StatementTree.tokens ++ [.eof]
      = before ++ ((Literal.range min max).tokens ++ after)) :
    RangeAt (statementComparisons start trees) (start ++ before) min max := by
  induction trees generalizing start before with
  | nil =>
    obtain ⟨before', rfl, hrest⟩ := append_eq_append_number [.eof] (by simp) h
    simp at hrest
  | cons t trees ih =>
    rw [List.flatMap_cons, List.append_assoc] at h
    rcases statement_range_cases start h with ⟨b, c, hmem, hb, hc⟩ | ⟨before', rfl, h'⟩
    · exact ⟨b, c, List.mem_append_left _ hmem, hb, hc⟩
    · obtain ⟨b, c, hmem, hb, hc⟩ := ih (start ++ t.tokens) h'
      refine ⟨b, c, List.mem_append_right _ hmem, ?_, hc⟩
      rw [← hb, List.append_assoc]

/-- Wherever a number, `and` and a number stand in the tokens of a program, its derivation has
that range there. -/
theorem range_mem_comparisons {t : ProgramTree} {before after : List Token} {min max : Double}
    (h : t.tokens = before ++ .number min :: .keyword .and :: .number max :: after) :
    RangeAt t.comparisons before min max :=
  statements_range [] h

end Roster.Grammar
