import CoverProbe.Json.Basic

set_option relaxedAutoImplicit false
set_option autoImplicit false

/-!
# Documents

What a settings text says, whatever format it is written in: tables, lists and plain values.

## Main definitions

* `CoverProbe.Document` — the values.
* `CoverProbe.Document.ofJson?` — a JSON value as a document.
-/

namespace CoverProbe

/-- A value of a settings text. -/
inductive Document where
  | null
  | bool (value : Bool)
  | integer (value : Int)
  | float (value : Binary64)
  | text (value : String)
  /-- A date, a time, or both. -/
  | moment
  | list (items : List Document)
  | table (members : List (String × Document))

namespace Document

/-- The member of a table, the last of that name. -/
def member? (members : List (String × Document)) (name : String) : Option Document :=
  (members.reverse.find? (·.1 = name)).map (·.2)

/-- The number that a value stands for; integers stand for the nearest one. -/
def number? : Document → Option Binary64
  | integer z => some (.ofInt z)
  | float x => some x
  | _ => none

/-- A number as a document: an integer that fits 64 bits, signed or not, else the nearest
floating-point value, which must be finite. -/
def ofNumber? (j : Json) : Option Document :=
  match j.integerIn? (-9223372036854775808) 18446744073709551615 with
  | some z => some (.integer z)
  | none => j.float?.map .float

mutual

/-- A JSON value as a document, if its texts and numbers have values. -/
def ofJson? : Json → Option Document
  | .null => some .null
  | .bool b => some (.bool b)
  | .number spelling => ofNumber? (.number spelling)
  | .string s => s.map .text
  | .array items => (ofItems? items).map .list
  | .object members => (ofMembers? members).map .table

/-- The items of a JSON array as documents. -/
def ofItems? : List Json → Option (List Document)
  | [] => some []
  | item :: rest => do
    let first ← ofJson? item
    let more ← ofItems? rest
    return first :: more

/-- The members of a JSON object as documents. -/
def ofMembers? : List (Option String × Json) → Option (List (String × Document))
  | [] => some []
  | (name, value) :: rest => do
    let name ← name
    let first ← ofJson? value
    let more ← ofMembers? rest
    return (name, first) :: more

end

end Document

end CoverProbe
