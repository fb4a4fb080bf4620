import Roster.Number.Numeral

/-!
# Cells

One field of a table: nothing, a number or a text. A field of a file is a number if the whole of
it is a finite numeral, nothing if it is empty, and otherwise the text it is.

`Cell.order` is the order used by sorting. It is total: numbers are compared by their place in
the total order of doubles, texts by code points (which is also the order of their UTF-8
bytes), and missing cells come last. A descending order turns it round among the cells that are
there and leaves missing ones last (`Cell.mayPrecede`).
-/

set_option autoImplicit false

namespace Roster

/-- One field of a row. -/
inductive Cell where
  | null
  | number (value : Double)
  | text (value : String)
deriving DecidableEq

/-- What all cells of a column that are not missing are. -/
inductive Kind where
  | numeric | text
deriving DecidableEq

/-- The word for a kind. -/
def Kind.name : Kind → String
  | numeric => "numeric"
  | text => "text"

/-- The direction of an order. -/
inductive Direction where
  | ascending | descending
deriving DecidableEq

/-- The order of two texts by code points. -/
def compareText (s t : String) : Ordering :=
  if s < t then .lt else if s = t then .eq else .gt

namespace Cell

/-- The cell of a field: only finite numerals are numbers. -/
def infer (field : String) : Cell :=
  if field.isEmpty then null
  else
    match Numeral.read? field with
    | some n => if n.isFinite then number n else text field
    | none => text field

/-- Whether a cell is missing. -/
def isNull : Cell → Bool
  | null => true
  | _ => false

/-- The number in a cell. -/
def number? : Cell → Option Double
  | number n => some n
  | _ => none

/-- The text in a cell. -/
def text? : Cell → Option String
  | text s => some s
  | _ => none

/-- The order used by sorting. -/
def order : Cell → Cell → Ordering
  | number x, number y => compare x.totalKey y.totalKey
  | text s, text t => compareText s t
  | null, null => .eq
  | null, _ => .gt
  | _, null => .lt
  | number _, text _ => .lt
  | text _, number _ => .gt

/-- Whether a cell may stand before another one: missing cells come last in both directions. -/
def mayPrecede (direction : Direction) (a b : Cell) : Bool :=
  match a.isNull, b.isNull with
  | false, false =>
    match direction with
    | .ascending => a.order b != .gt
    | .descending => b.order a != .gt
  | true, false => false
  | _, true => true

end Cell

end Roster
