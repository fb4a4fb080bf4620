import Roster.Number.Double

/-!
# Tokens

The words and signs a script is made of. A token carries its payload (the number or the text of
a literal); its kind is what remains without the payload, and is what a syntax error lists when
it says what could have stood in a place.
-/

set_option autoImplicit false

namespace Roster

/-- The reserved words. They are written in small letters only. -/
inductive Keyword where
  | load | filter | column | aggregate | print | sort
  | asc | desc
  | count | sum | average
  | between
  | and | or
deriving DecidableEq, Repr

namespace Keyword

/-- The word as it is written. -/
def text : Keyword → String
  | load => "load"
  | filter => "filter"
  | column => "column"
  | aggregate => "aggregate"
  | print => "print"
  | sort => "sort"
  | asc => "asc"
  | desc => "desc"
  | count => "count"
  | sum => "sum"
  | average => "average"
  | between => "between"
  | and => "and"
  | or => "or"

/-- Every reserved word. -/
def all : List Keyword :=
  [load, filter, column, aggregate, print, sort, asc, desc, count, sum, average, between, and, or]

/-- The reserved word that is written as a given text. -/
def ofText? (s : String) : Option Keyword := all.find? (·.text == s)

end Keyword

/-- The six relations between a cell and a value. -/
inductive Relation where
  | greater | less | greaterEqual | lessEqual | equal | notEqual
deriving DecidableEq, Repr

/-- The sign of a relation. -/
def Relation.symbol : Relation → String
  | greater => ">"
  | less => "<"
  | greaterEqual => ">="
  | lessEqual => "<="
  | equal => "=="
  | notEqual => "!="

/-- A word, sign or literal of a script, or its end. -/
inductive Token where
  | keyword (word : Keyword)
  | relation (sign : Relation)
  | number (value : Double)
  | string (value : String)
  | semicolon
  | eof
deriving DecidableEq

/-- A token without its payload. -/
inductive TokenKind where
  | keyword (word : Keyword)
  | relation (sign : Relation)
  | number
  | string
  | semicolon
  | eof
deriving DecidableEq

/-- The kind of a token. -/
def Token.kind : Token → TokenKind
  | keyword w => .keyword w
  | relation r => .relation r
  | number _ => .number
  | string _ => .string
  | semicolon => .semicolon
  | eof => .eof

/-- How a kind is named in a message: fixed words and signs stand between quotes. -/
def TokenKind.description : TokenKind → String
  | keyword w => s!"'{w.text}'"
  | relation r => s!"'{r.symbol}'"
  | number => "number"
  | string => "string"
  | semicolon => "';'"
  | eof => "end of input"

end Roster
