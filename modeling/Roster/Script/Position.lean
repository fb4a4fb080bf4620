/-!
# Positions

Where a character stands in a script: its line, and its place in the line counted in
characters, both from one. Only a line feed starts a new line.
-/

set_option autoImplicit false

namespace Roster

/-- Line and column of a character, counted from one. -/
structure Position where
  line : Nat
  column : Nat
deriving DecidableEq, Repr

namespace Position

/-- The position of the first character. -/
def start : Position := { line := 1, column := 1 }

/-- The position behind a character that stands at a position. -/
def after (p : Position) (c : Char) : Position :=
  if c = '\n' then { line := p.line + 1, column := 1 }
  else { p with column := p.column + 1 }

/-- The position behind a text that starts at a position. -/
def afterAll (p : Position) (cs : List Char) : Position := cs.foldl after p

/-- A position as a message names it. -/
def description (p : Position) : String := s!"line {p.line}, column {p.column}"

end Position

end Roster
