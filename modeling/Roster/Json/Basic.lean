import Roster.Number.Double

/-!
# JSON documents

A document as a tree. Numbers are whole numbers or doubles, and the fields of an object keep
the order in which they were put in. `Json.ofFields` builds an object from fields of which some
may share a key: a key keeps its first place and takes its last value.
-/

set_option autoImplicit false

namespace Roster

/-- A JSON document. -/
inductive Json where
  | null
  | bool (value : Bool)
  | integer (value : Int)
  | double (value : Double)
  | string (value : String)
  | array (items : List Json)
  | object (fields : List (String × Json))

instance : Inhabited Json := ⟨.null⟩

namespace Json

/-- Fields with one of them put in: a key that is there takes the new value in its place, and a
new key goes to the end. -/
def insertField (fields : List (String × Json)) (key : String) (value : Json) :
    List (String × Json) :=
  match fields with
  | [] => [(key, value)]
  | (k, v) :: rest =>
    if k = key then (key, value) :: rest else (k, v) :: insertField rest key value

/-- The object of fields that are put in one after the other. -/
def ofFields (fields : List (String × Json)) : Json :=
  .object (fields.foldl (fun object (key, value) => insertField object key value) [])

/-- The value of a key of an object. -/
def field? (key : String) : Json → Option Json
  | object fields => fields.lookup key
  | _ => none

end Json

end Roster
