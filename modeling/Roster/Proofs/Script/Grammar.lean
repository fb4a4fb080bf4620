import Roster.Script.Parser

/-!
# `Roster.Proofs.Script.Grammar`: the grammar of scripts

The grammar, over tokens:

    program    = statement+ eof
    statement  = "load" STRING ";"
               | "filter" chain ";"
               | "aggregate" ("count" | "sum" | "average") "column" STRING ";"
               | "sort" "column" STRING ("asc" | "desc") ";"
               | "print" ";"
    chain      = comparison (("and" | "or") ["filter"] comparison)*
    comparison = "column" STRING operator value
    value      = STRING | NUMBER | NUMBER "and" NUMBER

A derivation is a tree with one node per application of a rule: `ProgramTree`, `StatementTree`,
`ChainTree` and `Link` (one more comparison of a chain). A comparison has no tree of its own,
because a `Comparison` is no more and no less than what its rule puts together. Every tree has
the `tokens` it derives and the result it stands for (`program`, `statement`, `clause`). Neither
is defined through the parser.

The result of a chain is given by cutting it at every `or` (`cut`): the comparisons of each
piece are joined by `and` from left to right, and so are the pieces by `or`.

`ProgramTree.comparisons` lists the comparisons of a derivation with the tokens before each. It
serves to say that a number, `and` and another number are one range wherever they stand.
-/

set_option autoImplicit false

namespace Roster

/-! ### Tokens of the smallest parts -/

/-- The token of an operator. -/
def Operator.token : Operator → Token
  | relation sign => .relation sign
  | between => .keyword .between

/-- The tokens of a value. -/
def Literal.tokens : Literal → List Token
  | number value => [.number value]
  | text value => [.string value]
  | range min max => [.number min, .keyword .and, .number max]

/-- The tokens of a comparison before its value. -/
def Comparison.headTokens (c : Comparison) : List Token :=
  [.keyword .column, .string c.column, c.operator.token]

/-- The tokens of a comparison. -/
def Comparison.tokens (c : Comparison) : List Token := c.headTokens ++ c.literal.tokens

/-- The token of a connective. -/
def Connective.token : Connective → Token
  | and => .keyword .and
  | or => .keyword .or

/-- The token of an aggregate function. -/
def AggregateFunction.token : AggregateFunction → Token
  | count => .keyword .count
  | sum => .keyword .sum
  | average => .keyword .average

/-- The token of a direction. -/
def Direction.token : Direction → Token
  | ascending => .keyword .asc
  | descending => .keyword .desc

namespace Grammar

/-! ### Chains -/

/-- A further comparison of a chain, with the connective before it and whether the word `filter`
is repeated between the two. -/
structure Link where
  connective : Connective
  repeated : Bool
  comparison : Comparison
deriving DecidableEq

/-- The tokens between two comparisons. -/
def leadTokens (k : Connective) (repeated : Bool) : List Token :=
  k.token :: if repeated then [.keyword .filter] else []

/-- The tokens of a link before its comparison. -/
def Link.headTokens (l : Link) : List Token := leadTokens l.connective l.repeated

/-- The tokens of a link. -/
def Link.tokens (l : Link) : List Token := l.headTokens ++ l.comparison.tokens

/-- The derivation of a chain. -/
@[ext]
structure ChainTree where
  first : Comparison
  links : List Link
deriving DecidableEq

/-- A list with at least one entry. -/
structure Series (α : Type) where
  head : α
  tail : List α
deriving DecidableEq

namespace Series

variable {α β : Type}

/-- The entries from first to last. -/
def toList (s : Series α) : List α := s.head :: s.tail

/-- The series with every entry replaced. -/
def map (f : α → β) (s : Series α) : Series β := ⟨f s.head, s.tail.map f⟩

/-- Clauses joined by one connective, from left to right. -/
def joined (k : Connective) (s : Series (Clause α)) : Clause α :=
  s.tail.foldl (Clause.join k) s.head

end Series

/-- The comparisons of links up to the first `or`, and the pieces behind it. -/
def cutLinks : List Link → List Comparison × List (Series Comparison)
  | [] => ([], [])
  | l :: links =>
    let (piece, pieces) := cutLinks links
    match l.connective with
    | .and => (l.comparison :: piece, pieces)
    | .or => ([], ⟨l.comparison, piece⟩ :: pieces)

namespace ChainTree

/-- The tokens of a chain. -/
def tokens (t : ChainTree) : List Token := t.first.tokens ++ t.links.flatMap Link.tokens

/-- The comparisons of a chain, cut at every `or`. -/
def cut (t : ChainTree) : Series (Series Comparison) :=
  let (piece, pieces) := cutLinks t.links
  ⟨⟨t.first, piece⟩, pieces⟩

/-- The clause of a chain: each piece between two `or` is joined by `and`, and the pieces are
joined by `or`. -/
def clause (t : ChainTree) : Clause Comparison :=
  (t.cut.map fun piece => (piece.map .leaf).joined .and).joined .or

/-- The comparisons of a chain in the order of the source. -/
def comparisons (t : ChainTree) : List Comparison := t.first :: t.links.map Link.comparison

end ChainTree

/-! ### Statements and programs -/

/-- The derivation of a statement. -/
inductive StatementTree where
  | load (path : String)
  | filter (chain : ChainTree)
  | aggregate (function : AggregateFunction) (column : String)
  | sort (column : String) (direction : Direction)
  | print
deriving DecidableEq

namespace StatementTree

/-- The tokens of a statement. -/
def tokens : StatementTree → List Token
  | load path => [.keyword .load, .string path, .semicolon]
  | filter chain => .keyword .filter :: (chain.tokens ++ [.semicolon])
  | aggregate function column =>
    [.keyword .aggregate, function.token, .keyword .column, .string column, .semicolon]
  | sort column direction =>
    [.keyword .sort, .keyword .column, .string column, direction.token, .semicolon]
  | print => [.keyword .print, .semicolon]

/-- The statement that is derived. -/
def statement : StatementTree → Statement
  | load path => .load path
  | filter chain => .filter chain.clause
  | aggregate function column => .aggregate function column
  | sort column direction => .sort column direction
  | print => .print

end StatementTree

/-- The derivation of a program. -/
structure ProgramTree where
  statements : List StatementTree
  statements_ne_nil : statements ≠ []
deriving DecidableEq

namespace ProgramTree

/-- The tokens of a program, the end of the script included. -/
def tokens (t : ProgramTree) : List Token := t.statements.flatMap StatementTree.tokens ++ [.eof]

/-- The program that is derived: its statements in the order of the source. -/
def program (t : ProgramTree) : Program := t.statements.map StatementTree.statement

end ProgramTree

/-! ### Comparisons in their places -/

/-- The comparisons of links, each with all tokens before it, if `before` stands before the
links. -/
def linkComparisons (before : List Token) : List Link → List (List Token × Comparison)
  | [] => []
  | l :: links =>
    (before ++ l.headTokens, l.comparison) :: linkComparisons (before ++ l.tokens) links

/-- The comparisons of a statement, each with all tokens before it, if `before` stands before
the statement. -/
def StatementTree.comparisonsAfter (before : List Token) :
    StatementTree → List (List Token × Comparison)
  | filter chain =>
    let start := before ++ [.keyword .filter]
    (start, chain.first) :: linkComparisons (start ++ chain.first.tokens) chain.links
  | _ => []

/-- The comparisons of statements, each with all tokens before it, if `before` stands before
the statements. -/
def statementComparisons (before : List Token) :
    List StatementTree → List (List Token × Comparison)
  | [] => []
  | t :: trees => t.comparisonsAfter before ++ statementComparisons (before ++ t.tokens) trees

/-- The comparisons of a program, each with all tokens before it. -/
def ProgramTree.comparisons (t : ProgramTree) : List (List Token × Comparison) :=
  statementComparisons [] t.statements

/-- Among comparisons in their places there is one whose value is the given range and stands
behind the given tokens. -/
def RangeAt (places : List (List Token × Comparison)) (before : List Token) (min max : Double) :
    Prop :=
  ∃ b c, (b, c) ∈ places ∧ before = b ++ c.headTokens ∧ c.literal = .range min max

end Grammar

end Roster
