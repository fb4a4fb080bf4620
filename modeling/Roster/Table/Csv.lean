import Roster.Files.Fault
import Roster.Text.Utf8

/-!
# Comma-separated records

A file is cut into records and fields on the level of bytes. A comma ends a field, and a line
feed or a carriage return ends a record; empty lines are no records. A field that starts with a
quote is quoted: commas and line ends belong to it, a doubled quote stands for one, and what
follows the closing quote up to the next comma or line end is added as it is. A quote anywhere
else in a field is a character like any other.

`Csv.records` splits, `Csv.read` makes texts of the fields. Fields are trimmed, first of ASCII
blanks and, once decoded, of all blanks; the names in the first record are decoded before they
are trimmed. Every record has as many fields as the first one. A fault names the place where
the record before the faulty one ended, because there the reading of the faulty one began.
-/

set_option autoImplicit false

namespace Roster.Csv

open Text

/-- How far reading has come: bytes read, the line (from one) and records read. -/
structure Place where
  byte : Nat
  line : Nat
  record : Nat
deriving DecidableEq

/-- Why a file is not a table of fields. -/
inductive Fault where
  /-- The file could be opened but not read. -/
  | unreadable (cause : FileFault)
  /-- A record has another number of fields than the first one. -/
  | unequalWidths (place : Place) (found expected : Nat)
  /-- A field is not UTF-8; both it and the byte in it are counted from zero. -/
  | invalidUtf8 (place : Place) (field index : Nat)
deriving DecidableEq

namespace Fault

/-- The text shown for a fault. -/
def message : Fault → String
  | unreadable cause => cause.message
  | unequalWidths p found expected =>
    s!"CSV error: record {p.record} (line: {p.line}, byte: {p.byte}): "
      ++ s!"found record with {found} fields, but the previous record has {expected} fields"
  | invalidUtf8 p field index =>
    s!"CSV parse error: record {p.record} (line {p.line}, field: {field}, byte: {p.byte}): "
      ++ s!"invalid utf-8: invalid UTF-8 in field {field} near byte index {index}"

end Fault

/-- The bytes of the fields of a record, and where its reading began. -/
structure Record where
  place : Place
  fields : List Bytes

/-! ## Splitting -/

/-- What has been read of a record. -/
inductive State where
  /-- Nothing. -/
  | recordStart
  /-- Everything up to a comma. -/
  | fieldStart
  /-- Part of a field outside quotes. -/
  | plain
  /-- Part of a field inside quotes. -/
  | quoted
  /-- A field inside quotes up to a quote, which closes it unless another one follows. -/
  | quote
deriving DecidableEq

/-- Whether a byte ends a record. -/
def isLineEnd (b : UInt8) : Bool := b == 0x0a || b == 0x0d

/-- The place behind one more byte. -/
def Place.after (p : Place) (b : UInt8) : Place :=
  { p with byte := p.byte + 1, line := if b == 0x0a then p.line + 1 else p.line }

/-- What a byte does. -/
inductive Action where
  /-- It belongs to no field. -/
  | pass (state : State)
  /-- It is the next byte of the field. -/
  | append (state : State)
  | endField
  | endRecord
deriving DecidableEq

/-- What a byte does outside quotes. -/
def outside (b : UInt8) : Action :=
  if b == 0x2c then .endField else if isLineEnd b then .endRecord else .append .plain

/-- What a byte does. -/
def action (state : State) (b : UInt8) : Action :=
  match state with
  | .recordStart =>
    if isLineEnd b then .pass .recordStart else if b == 0x22 then .pass .quoted else outside b
  | .fieldStart => if b == 0x22 then .pass .quoted else outside b
  | .plain => outside b
  | .quoted => if b == 0x22 then .pass .quote else .append .quoted
  | .quote => if b == 0x22 then .append .quoted else outside b

/-- Splits bytes into records. `start` is where the current record began and `here` where
reading stands; `fields` and `field` are the fields read and the part of the current one, both
the last first. -/
def split (state : State) (start here : Place) (fields : List Bytes) (field : Bytes) :
    Bytes → List Record
  | [] =>
    -- What is left at the end is a record only if one has been begun.
    if state == .recordStart then []
    else [{ place := start, fields := (field.reverse :: fields).reverse }]
  | b :: rest =>
    let here := here.after b
    match action state b with
    | .pass state => split state start here fields field rest
    | .append state => split state start here fields (b :: field) rest
    | .endField => split .fieldStart start here (field.reverse :: fields) [] rest
    | .endRecord =>
      let next := { here with record := here.record + 1 }
      { place := start, fields := (field.reverse :: fields).reverse }
        :: split .recordStart next next [] [] rest

/-- The records of a file. A byte-order mark in front is skipped but counted. -/
def records (bytes : Bytes) : List Record :=
  let start : Place := { byte := 0, line := 1, record := 0 }
  match bytes with
  | 0xef :: 0xbb :: 0xbf :: rest => split .recordStart start { start with byte := 3 } [] [] rest
  | _ => split .recordStart start start [] [] bytes

/-! ## Reading -/

/-- The texts of fields, or the first ill-formed one and the byte in it. -/
def decodeFields (field : Nat) : List Bytes → Except (Nat × Nat) (List String)
  | [] => .ok []
  | bytes :: rest =>
    match Utf8.decode bytes with
    | .error index => .error (field, index)
    | .ok s => (decodeFields (field + 1) rest).map (s :: ·)

/-- The texts of the fields of a record, trimmed. -/
def Record.texts (r : Record) (fields : List Bytes) : Except Fault (List String) :=
  match decodeFields 0 fields with
  | .error (field, index) => .error (.invalidUtf8 r.place field index)
  | .ok texts => .ok (texts.map trim)

/-- The texts of a record that must have a number of fields. -/
def Record.read (width : Nat) (r : Record) : Except Fault (List String) :=
  if r.fields.length ≠ width then .error (.unequalWidths r.place r.fields.length width)
  else r.texts (r.fields.map trimAscii)

/-- The names in the first record and the fields of all others, or the first fault. A file
without a record has no names. -/
def read (bytes : Bytes) : Except Fault (List String × List (List String)) :=
  match records bytes with
  | [] => .ok ([], [])
  | header :: rest => do
    let names ← header.texts header.fields
    let rows ← rest.mapM (Record.read header.fields.length)
    return (names, rows)

end Roster.Csv
