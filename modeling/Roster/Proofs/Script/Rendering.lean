import Roster.Proofs.Number.Positional
import Roster.Proofs.Script.Concatenation

/-!
# `Roster.Proofs.Script.Rendering`: a program that is written down is read again

`Program.text` writes a program in the concrete syntax: one statement on a line, names between
quotes, and a clause as its comparisons from left to right with the connectives between them.
`parse_text` says that a program that was read once, and has no infinite number, is read from its
text again.

* What can be written is read: `Writes` says of a text that it is read as some tokens wherever it
  stands, if only a delimiter follows. Texts of this kind can be put together, so one lemma for
  each part of a statement follows its definition, up to `writes_statement`. A name must have no
  quote and a number no sign, which holds of all tokens that have been read.
* Only the tokens count. A text has no parentheses, so the shape of a clause is not in its text. But
  a clause that was read has the shape of a chain: its tokens in order are those of the chain
  without the repeated `filter` (`tokens_clause`), and that chain has the same clause
  (`statement_plain`). So the program is derived from the tokens of its text.
-/

set_option autoImplicit false

namespace Roster

open Feed Grammar Lexer

/-! ### Texts -/

/-- A text between quotes. -/
def quoted (s : String) : String := "\"" ++ s ++ "\""

/-- The word for a direction. -/
def Direction.word : Direction → Keyword
  | ascending => .asc
  | descending => .desc

/-- The comparisons of a clause in order, with the connectives between them. -/
def Clause.text : Clause Comparison → String
  | leaf c => c.text
  | and left right => left.text ++ " " ++ Keyword.and.text ++ " " ++ right.text
  | or left right => left.text ++ " " ++ Keyword.or.text ++ " " ++ right.text

/-- A statement in the concrete syntax. -/
def Statement.text : Statement → String
  | load path => Keyword.load.text ++ " " ++ quoted path ++ ";"
  | filter clause => Keyword.filter.text ++ " " ++ clause.text ++ ";"
  | aggregate function column =>
    Keyword.aggregate.text ++ " " ++ function.name ++ " " ++ Keyword.column.text ++ " "
      ++ quoted column ++ ";"
  | sort column direction =>
    Keyword.sort.text ++ " " ++ Keyword.column.text ++ " " ++ quoted column ++ " "
      ++ direction.word.text ++ ";"
  | print => Keyword.print.text ++ ";"

/-- A program in the concrete syntax, one statement on a line. -/
def Program.text (p : Program) : String := String.join (p.map fun s => s.text ++ "\n")

/-- The numbers of a literal. -/
def Literal.numbers : Literal → List Double
  | number x => [x]
  | text _ => []
  | range min max => [min, max]

/-- The numbers of a statement. -/
def Statement.numbers : Statement → List Double
  | filter clause => clause.inOrder.flatMap fun c => c.literal.numbers
  | load _ | aggregate _ _ | sort _ _ | print => []

/-- The numbers of a program. -/
def Program.numbers (p : Program) : List Double := p.flatMap Statement.numbers

/-! ### The tokens of texts -/

/-- The tokens of a clause in order. -/
def Clause.tokens : Clause Comparison → List Token
  | leaf c => c.tokens
  | and left right => left.tokens ++ [.keyword .and] ++ right.tokens
  | or left right => left.tokens ++ [.keyword .or] ++ right.tokens

/-- The tokens of a statement, its semicolon included. -/
def Statement.tokens : Statement → List Token
  | load path => [.keyword .load, .string path, .semicolon]
  | filter clause => .keyword .filter :: (clause.tokens ++ [.semicolon])
  | aggregate function column =>
    [.keyword .aggregate, function.token, .keyword .column, .string column, .semicolon]
  | sort column direction =>
    [.keyword .sort, .keyword .column, .string column, direction.token, .semicolon]
  | print => [.keyword .print, .semicolon]

/-- Whether a token is one that its text is read as: it has been read before, and is no infinite
number. -/
def Token.Printable (t : Token) : Prop := t.Spelled ∧ ∀ x, t = .number x → x.isFinite = true

/-! ### What is read of a text -/

/-- Whether a text is read as tokens, if a delimiter stands behind it. -/
def Writes (text : String) (ts : List Token) : Prop :=
  ∀ (d : Char) (cs : List Char) (us : List Token), Delimits d → Reads (d :: cs) us →
    Reads (text.toList ++ d :: cs) (ts ++ us)

namespace Writes

variable {a b : String} {ts us : List Token}

/-- A text that is read as a token writes this token. -/
theorem token {t : Token} (h : t.WrittenAs a.toList) : Writes a [t] :=
  fun _ _ _ hd hcs => hcs.token h hd

/-- Texts can be put one behind the other with a blank between them. -/
theorem blank (ha : Writes a ts) (hb : Writes b us) : Writes (a ++ " " ++ b) (ts ++ us) := by
  intro d cs vs hd hcs
  have hrest : Reads (' ' :: (b.toList ++ d :: cs)) (us ++ vs) := (hb d cs vs hd hcs).blank rfl
  have htext : (a ++ " " ++ b).toList ++ d :: cs = a.toList ++ ' ' :: (b.toList ++ d :: cs) := by
    simp [String.toList_append]
  rw [htext, List.append_assoc]
  exact ha _ _ _ delimits_blank hrest

/-- A semicolon needs no blank before it. -/
theorem semicolon (ha : Writes a ts) : Writes (a ++ ";") (ts ++ [.semicolon]) := by
  intro d cs vs hd hcs
  have htext : (a ++ ";").toList ++ d :: cs = a.toList ++ ';' :: d :: cs := by
    simp [String.toList_append]
  rw [htext, List.append_assoc]
  exact ha _ _ _ delimits_semicolon hcs.semicolon

/-- The word of a keyword writes it. -/
theorem keyword (w : Keyword) : Writes w.text [.keyword w] := token (Token.writtenAs_keyword w)

/-- A string that has been read has no quote. -/
theorem string {s : String} (h : (Token.string s).Printable) : Writes (quoted s) [.string s] := by
  cases h.1 with
  | @string body hbody =>
    refine token ?_
    have htext : (quoted (String.ofList body)).toList = '"' :: (body ++ ['"']) := by
      simp [quoted, String.toList_append]
    rw [htext]
    exact Token.writtenAs_string hbody

/-- A number that has been read has no sign, and a finite one is written with the digits that are
read as it again. -/
theorem number {x : Double} (h : (Token.number x).Printable) :
    Writes x.positional [.number x] := by
  have hsign : x.negative = false := by
    cases h.1 with
    | number => exact Numeral.negative_ofDigits _ _ _ _
  obtain ⟨text, whole, fraction, htext, hplain, hvalue⟩ :=
    Double.exists_isPlain_positional (h.2 x rfl)
  have hchars : x.positional.toList = text := by
    rw [htext, Double.signChars, hsign]
    simp
  refine token ?_
  rw [hchars, ← hvalue, hsign]
  exact Token.writtenAs_number hplain

end Writes

/-! ### The parts of a statement -/

/-- What is shown for a literal writes its tokens, also those of a range. -/
theorem writes_literal {l : Literal} (h : ∀ t ∈ l.tokens, t.Printable) :
    Writes l.display l.tokens := by
  cases l with
  | number x => exact .number (h _ List.mem_cons_self)
  | text s =>
    have htext : (Literal.text s).display = quoted s := rfl
    rw [htext]
    exact .string (h _ List.mem_cons_self)
  | range min max =>
    obtain ⟨hmin, -, hmax, -⟩ : _ ∧ _ ∧ _ ∧ _ := by
      simpa only [Literal.tokens, List.forall_mem_cons] using h
    have htext : (Literal.range min max).display
        = min.positional ++ " " ++ Keyword.and.text ++ " " ++ max.positional := by
      rw [← String.toList_inj]
      simp [Literal.display, Keyword.text, toString]
    rw [htext]
    exact ((Writes.number hmin).blank (.keyword .and)).blank (.number hmax)

/-- The sign or word of an operator writes it. -/
theorem writes_operator (o : Operator) : Writes o.symbol [o.token] := by
  cases o with
  | relation sign => exact .token (Token.writtenAs_relation sign)
  | between => exact .keyword .between

/-- The text of a comparison writes its tokens. -/
theorem writes_comparison {c : Comparison} (h : ∀ t ∈ c.tokens, t.Printable) :
    Writes c.text c.tokens := by
  have htext : c.text = Keyword.column.text ++ " " ++ quoted c.column ++ " " ++ c.operator.symbol
      ++ " " ++ c.literal.display := by
    rw [← String.toList_inj]
    simp [Comparison.text, Keyword.text, quoted, toString]
  obtain ⟨hhead, hliteral⟩ := List.forall_mem_append.1 h
  have hcolumn : (Token.string c.column).Printable := hhead _ (.tail _ List.mem_cons_self)
  rw [htext]
  exact (((Writes.keyword .column).blank (.string hcolumn)).blank
    (writes_operator c.operator)).blank (writes_literal hliteral)

/-- The text of a clause writes its tokens. The induction is on the clause, and connectives are
words with blanks around them. -/
theorem writes_clause {clause : Clause Comparison} (h : ∀ t ∈ clause.tokens, t.Printable) :
    Writes clause.text clause.tokens := by
  induction clause with
  | leaf c => exact writes_comparison h
  | and left right ihLeft ihRight | or left right ihLeft ihRight =>
    -- No parentheses are written, so the two connectives do not differ here.
    obtain ⟨hfront, hright⟩ := List.forall_mem_append.1 h
    obtain ⟨hleft, -⟩ := List.forall_mem_append.1 hfront
    exact ((ihLeft hleft).blank (.keyword _)).blank (ihRight hright)

/-- The word of an aggregate function writes it. -/
theorem writes_function (f : AggregateFunction) : Writes f.name [f.token] := by
  cases f with
  | count => exact .keyword .count
  | sum => exact .keyword .sum
  | average => exact .keyword .average

/-- The word of a direction writes it. -/
theorem writes_direction (d : Direction) : Writes d.word.text [d.token] := by
  cases d with
  | ascending => exact .keyword .asc
  | descending => exact .keyword .desc

/-- The text of a statement writes its tokens and its semicolon. Its tokens are written one by one
with blanks between them, and the semicolon stands behind the last one. -/
theorem writes_statement {s : Statement} (h : ∀ t ∈ s.tokens, t.Printable) :
    Writes s.text s.tokens := by
  cases s with
  | load path =>
    exact ((Writes.keyword .load).blank (.string (h _ (.tail _ List.mem_cons_self)))).semicolon
  | filter clause =>
    have hclause : ∀ t ∈ clause.tokens, t.Printable :=
      fun t ht => h t (.tail _ (List.mem_append_left _ ht))
    exact ((Writes.keyword .filter).blank (writes_clause hclause)).semicolon
  | aggregate function column =>
    have hcolumn : (Token.string column).Printable := h _ (by simp [Statement.tokens])
    exact ((((Writes.keyword .aggregate).blank (writes_function function)).blank
      (.keyword .column)).blank (.string hcolumn)).semicolon
  | sort column direction =>
    have hcolumn : (Token.string column).Printable := h _ (by simp [Statement.tokens])
    exact ((((Writes.keyword .sort).blank (.keyword .column)).blank (.string hcolumn)).blank
      (writes_direction direction)).semicolon
  | print => exact (Writes.keyword .print).semicolon

/-- The text of a program is read as the tokens of its statements. -/
theorem reads_program {p : Program} (h : ∀ s ∈ p, ∀ t ∈ s.tokens, t.Printable) :
    Reads p.text.toList (p.flatMap Statement.tokens) := by
  induction p with
  | nil => exact .nil
  | cons s p ih =>
    obtain ⟨hs, hp⟩ := List.forall_mem_cons.1 h
    have htext : (Program.text (s :: p)).toList
        = s.text.toList ++ '\n' :: (Program.text p).toList := by
      simp [Program.text, String.toList_append]
    rw [htext, List.flatMap_cons]
    exact writes_statement hs _ _ _ delimits_lineFeed ((ih hp).blank rfl)

/-! ### The tokens derive the program -/

namespace Grammar

/-- A link without the repeated word `filter`. -/
def Link.plain (l : Link) : Link := { l with repeated := false }

/-- A chain without repeated words. -/
def ChainTree.plain (t : ChainTree) : ChainTree := { t with links := t.links.map Link.plain }

/-- A statement without repeated words. -/
def StatementTree.plain : StatementTree → StatementTree
  | filter chain => .filter chain.plain
  | t => t

/-- The repeated words mean nothing. -/
theorem statement_plain (t : StatementTree) : t.plain.statement = t.statement := by
  cases t with
  | filter chain =>
    have hchain : chain.plain.chain = chain.chain := List.foldl_map
    show Statement.filter chain.plain.clause = .filter chain.clause
    rw [← clause_chain, ← clause_chain, hchain]
  | _ => rfl

/-- A link without its repeated word is a connective and a comparison. -/
theorem Link.tokens_plain (l : Link) :
    l.plain.tokens = l.connective.token :: l.comparison.tokens := rfl

/-- One more link stands behind all of the clause, whether it is joined to the open conjunction
or closes it. -/
theorem tokens_addTo (c : Chain) (l : Link) :
    (l.addTo c).clause.tokens = c.clause.tokens ++ l.plain.tokens := by
  obtain ⟨closed, group⟩ := c
  obtain ⟨k, repeated, comparison⟩ := l
  rw [Link.tokens_plain]
  cases k <;> cases closed <;>
    simp [Link.addTo, Joint.extend, Chain.clause, Clause.tokens, Connective.token]

/-- Links that are added to a chain add their tokens on its right, in whichever conjunction they end
up. -/
theorem tokens_foldl_addTo (links : List Link) (c : Chain) :
    (links.foldl Link.addTo c).clause.tokens
      = c.clause.tokens ++ (links.map Link.plain).flatMap Link.tokens := by
  induction links generalizing c with
  | nil => simp
  | cons l links ih =>
    rw [List.foldl_cons, ih, tokens_addTo, List.map_cons, List.flatMap_cons, List.append_assoc]

/-- The tokens of the clause of a chain in order are those of the chain, but for the repeated
words. -/
theorem tokens_clause (t : ChainTree) : t.clause.tokens = t.plain.tokens := by
  rw [← clause_chain, ChainTree.chain, tokens_foldl_addTo]
  rfl

/-- A statement has the tokens that its tree has without repeated words. -/
theorem tokens_statement (t : StatementTree) : t.statement.tokens = t.plain.tokens := by
  cases t with
  | filter chain =>
    show Token.keyword .filter :: (chain.clause.tokens ++ [.semicolon]) = _
    rw [tokens_clause]
    rfl
  | _ => rfl

/-- Leaving out the repeated words brings no token in. -/
theorem Link.mem_tokens_of_plain {l : Link} {t : Token} (h : t ∈ l.plain.tokens) :
    t ∈ l.tokens := by
  rw [tokens_plain] at h
  rcases List.mem_cons.1 h with rfl | h
  · exact List.mem_append_left _ List.mem_cons_self
  · exact List.mem_append_right _ h

/-- Leaving out repeated words adds no token. -/
theorem mem_tokens_of_plain {s : StatementTree} {t : Token} (h : t ∈ s.plain.tokens) :
    t ∈ s.tokens := by
  cases s with
  | filter chain =>
    have hlinks : t ∈ (chain.links.map Link.plain).flatMap Link.tokens →
        t ∈ chain.links.flatMap Link.tokens := by
      rw [List.flatMap_map]
      intro h
      obtain ⟨l, hl, ht⟩ := List.mem_flatMap.1 h
      exact List.mem_flatMap.2 ⟨l, hl, Link.mem_tokens_of_plain ht⟩
    have hchain : t ∈ chain.plain.tokens → t ∈ chain.tokens := fun h =>
      List.mem_append.2 ((List.mem_append.1 h).imp_right hlinks)
    simp only [StatementTree.plain, StatementTree.tokens, List.mem_cons, List.mem_append] at h ⊢
    exact h.imp_right (Or.imp_left hchain)
  | _ => exact h

end Grammar

/-! ### Numbers -/

/-- The numbers among the tokens of a comparison are those of its literal. -/
theorem mem_numbers_of_comparison {c : Comparison} {x : Double} (h : .number x ∈ c.tokens) :
    x ∈ c.literal.numbers := by
  obtain ⟨column, operator, literal⟩ := c
  have hoperator : operator.token ≠ .number x := by
    cases operator <;> exact nofun
  have hliteral : .number x ∈ literal.tokens := by
    simpa [Comparison.tokens, Comparison.headTokens, hoperator.symm] using h
  cases literal <;> simp_all [Literal.tokens, Literal.numbers]

/-- The numbers among the tokens of a clause are those of its literals. -/
theorem mem_numbers_of_clause {clause : Clause Comparison} {x : Double}
    (h : .number x ∈ clause.tokens) : x ∈ clause.inOrder.flatMap fun c => c.literal.numbers := by
  induction clause with
  | leaf c =>
    rw [Clause.inOrder, List.flatMap_singleton]
    exact mem_numbers_of_comparison h
  | and left right ihLeft ihRight | or left right ihLeft ihRight =>
    rw [Clause.inOrder, List.flatMap_append, List.mem_append]
    simp only [Clause.tokens, List.mem_append, List.mem_singleton, reduceCtorEq, or_false] at h
    exact h.imp ihLeft ihRight

/-- The numbers among the tokens of a statement are those of its literals. -/
theorem mem_numbers_of_statement {s : Statement} {x : Double} (h : .number x ∈ s.tokens) :
    x ∈ s.numbers := by
  cases s with
  | filter clause =>
    refine mem_numbers_of_clause ?_
    simpa [Statement.tokens] using h
  | load path => simp [Statement.tokens] at h
  | aggregate function column =>
    cases function <;> simp [Statement.tokens, AggregateFunction.token] at h
  | sort column direction => cases direction <;> simp [Statement.tokens, Direction.token] at h
  | print => simp [Statement.tokens] at h

/-! ### Reading again -/

/-- A script is the program that is derived from what it is read as. -/
theorem parse_of_reads {script : String} {trees : List StatementTree} (hne : trees ≠ [])
    (h : Reads script.toList (trees.flatMap StatementTree.tokens)) :
    Program.parse script = .ok (trees.map StatementTree.statement) := by
  obtain ⟨ls, q, hfeed, htokens⟩ := h .start
  exact parse_of_statements hfeed hne htokens.symm

/-- A program that is read is derived from tokens that can be written. -/
theorem exists_spelled_of_parse {script : String} {p : Program}
    (h : Program.parse script = .ok p) :
    ∃ trees : List StatementTree, trees ≠ [] ∧ trees.map StatementTree.statement = p ∧
      ∀ s ∈ trees, ∀ t ∈ s.tokens, t.Spelled := by
  obtain ⟨ls, tree, hls, htree, rfl⟩ := exists_tree_of_parse h
  obtain ⟨front, q, rfl, hfeed⟩ := Feed.ofScript_of_lexemes hls
  refine ⟨tree.statements, tree.statements_ne_nil, rfl, fun s hs t ht => ?_⟩
  have hmem : t ∈ front.map Lexeme.token := by
    rw [← statements_tokens_of_tree htree]
    exact List.mem_flatMap.2 ⟨s, hs, ht⟩
  obtain ⟨l, hl, rfl⟩ := List.mem_map.1 hmem
  have hitem : .ok l ∈ (Feed.ofScript script).items := by
    rw [hfeed]
    exact List.mem_map_of_mem hl
  exact Feed.spelled_of_mem_ofScript hitem

/-- A program that was read from some script and has no infinite number is read from its text
again: the same clauses, the same names, and the same numbers to the last bit. -/
theorem parse_text {script : String} {p : Program} (h : Program.parse script = .ok p)
    (hfinite : ∀ x ∈ p.numbers, x.isFinite = true) : Program.parse p.text = .ok p := by
  obtain ⟨trees, hne, rfl, hspelled⟩ := exists_spelled_of_parse h
  have htokens : (trees.map StatementTree.statement).flatMap Statement.tokens
      = (trees.map StatementTree.plain).flatMap StatementTree.tokens := by
    rw [List.flatMap_map, List.flatMap_map]
    exact congrArg (List.flatMap · trees) (funext tokens_statement)
  have hprogram : (trees.map StatementTree.plain).map StatementTree.statement
      = trees.map StatementTree.statement := by
    rw [List.map_map]
    exact congrArg (List.map · trees) (funext statement_plain)
  -- Every token of the text was a token of the script.
  have hprintable : ∀ s ∈ trees.map StatementTree.statement, ∀ t ∈ s.tokens, t.Printable := by
    intro s hs t ht
    obtain ⟨tree, htree, rfl⟩ := List.mem_map.1 hs
    refine ⟨?_, fun x hx => hfinite x (List.mem_flatMap.2 ⟨_, hs, ?_⟩)⟩
    · rw [tokens_statement] at ht
      exact hspelled tree htree t (mem_tokens_of_plain ht)
    · rw [hx] at ht
      exact mem_numbers_of_statement ht
  have hreads := reads_program hprintable
  rw [htokens] at hreads
  have hplain : trees.map StatementTree.plain ≠ [] := by simpa using hne
  rw [parse_of_reads hplain hreads, hprogram]

/-- The first number does not become a range when the repeated `filter` behind it is left out. -/
theorem parse_text_repeated :
    let script := "filter column \"n\" > 2 and filter column \"n\" between 0.5 and 7; print;"
    let two : Double := { negative := false, magnitude := 1024 * twoTo 52 }
    let half : Double := { negative := false, magnitude := 1022 * twoTo 52 }
    let seven : Double := { negative := false, magnitude := 1025 * twoTo 52 + 3 * twoTo 50 }
    let p : Program := [
      .filter (.and (.leaf ⟨"n", .relation .greater, .number two⟩)
        (.leaf ⟨"n", .between, .range half seven⟩)),
      .print]
    Program.parse script = .ok p ∧ (∀ x ∈ p.numbers, x.isFinite = true) ∧
      Program.parse p.text = .ok p := by
  intro script two half seven p
  have hlexes : Lexes
      "filter column \"n\" > 2 and filter column \"n\" between 0.5 and 7; print;".toList
      .start
        [⟨.keyword .filter, "filter", ⟨1, 1⟩⟩, ⟨.keyword .column, "column", ⟨1, 8⟩⟩,
          ⟨.string "n", "\"n\"", ⟨1, 15⟩⟩, ⟨.relation .greater, ">", ⟨1, 19⟩⟩,
          ⟨.number two, "2", ⟨1, 21⟩⟩, ⟨.keyword .and, "and", ⟨1, 23⟩⟩,
          ⟨.keyword .filter, "filter", ⟨1, 27⟩⟩, ⟨.keyword .column, "column", ⟨1, 34⟩⟩,
          ⟨.string "n", "\"n\"", ⟨1, 41⟩⟩, ⟨.keyword .between, "between", ⟨1, 45⟩⟩,
          ⟨.number half, "0.5", ⟨1, 53⟩⟩, ⟨.keyword .and, "and", ⟨1, 57⟩⟩,
          ⟨.number seven, "7", ⟨1, 61⟩⟩, ⟨.semicolon, ";", ⟨1, 62⟩⟩,
          ⟨.keyword .print, "print", ⟨1, 64⟩⟩, ⟨.semicolon, ";", ⟨1, 69⟩⟩] ⟨1, 70⟩ := by
    -- Sixteen lexemes, each read by computation.
    iterate 16 refine .token rfl rfl ?_
    exact .atEnd rfl
  let chain : ChainTree := {
    first := ⟨"n", .relation .greater, .number two⟩
    links := [
      { connective := .and, repeated := true, comparison := ⟨"n", .between, .range half seven⟩ }] }
  have hne : [StatementTree.filter chain, .print] ≠ [] := List.cons_ne_nil _ _
  have hparse : Program.parse script = .ok p := parse_of_statements hlexes.ofChars_eq hne rfl
  have hfinite : ∀ x ∈ p.numbers, x.isFinite = true := by decide
  exact ⟨hparse, hfinite, parse_text hparse hfinite⟩

end Roster
