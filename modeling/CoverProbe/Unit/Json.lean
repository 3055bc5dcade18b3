import CoverProbe.Decimal.Layout
import CoverProbe.Json.Basic
import CoverProbe.Unit.Basic

set_option relaxedAutoImplicit false
set_option autoImplicit false

/-!
# Units as JSON

A unit is an object with the members `name`, `first_line`, `code`, `consts` and `line_table`; bytes
are lists of numbers. The constant `null` is the string `"None"`, any other an object whose only
member is named for its kind.

Reading takes the members in any order, leaves unknown ones aside, and refuses a repeated or missing
one. A unit may also be the list of its five members.

## Main definitions

* `CoverProbe.CodeUnit.toJson` — a unit written.
* `CoverProbe.CodeUnit.ofJson?` — a unit read.
-/

namespace CoverProbe

namespace UnitJson

/-- A floating-point constant is written with the fewest digits that read back, of two equally near
decimals the even one, without an exponent between `10 ^ -5` and `10 ^ 16`, and then with at least
one digit behind the point. -/
def float : FloatLayout where
  tie := .even
  positional := some (-4, 16)
  wholePoint := true
  plusExponent := true

/-! ## Writing -/

/-- A floating-point value as a number, or `null` if it is not finite. -/
def ofFloat (x : Binary64) : Json :=
  if x.isFinite then .number (float.render x) else .null

/-- Bytes as a list of numbers. -/
def ofBytes (bs : List UInt8) : Json :=
  .array (bs.map fun b => .nat b.toNat)

mutual

/-- A unit written. -/
def ofUnit : CodeUnit → Json
  | ⟨name, firstLine, code, consts, lineTable⟩ =>
    .obj [("name", .str name), ("first_line", .nat firstLine.toNat), ("code", ofBytes code),
      ("consts", .array (ofPool consts)), ("line_table", ofBytes lineTable)]

/-- The constants of a pool written. -/
def ofPool : Pool → List Json
  | [] => []
  | c :: rest => ofConstant c :: ofPool rest

/-- A constant written. -/
def ofConstant : Constant CodeUnit → Json
  | .null => .str "None"
  | .bool b => .obj [("Bool", .bool b)]
  | .int z => .obj [("Int", .int z.toInt)]
  | .float x => .obj [("Float", ofFloat x)]
  | .str s => .obj [("Str", .str s)]
  | .bytes bs => .obj [("Bytes", ofBytes bs)]
  | .unit u => .obj [("Code", ofUnit u)]

end

/-! ## Reading -/

/-- The levels of nesting that are read, the outermost counted. -/
def maxDepth : Nat := 127

/-- Bytes read. -/
def toBytes? (j : Json) : Option (List UInt8) := do
  (← j.items?).mapM Json.byte?

/-- A 64-bit integer read. -/
def toInt64? (j : Json) : Option Int64 :=
  (j.integerIn? (-9223372036854775808) 9223372036854775807).map Int64.ofInt

/-- The values of the five members of a unit. -/
def members? : Json → Option (List Json)
  | .array items => if items.length = 5 then some items else none
  | .object members => do
    let members ← Json.named members
    ["name", "first_line", "code", "consts", "line_table"].mapM fun name =>
      match members.filter (·.1 = name) with
      | [(_, value)] => some value
      | _ => none
  | _ => none

/-- The kind of a constant and its payload. -/
def variant? : Json → Option (String × Json)
  | .string (some name) => if name = "None" then some (name, .null) else none
  | .object [(some name, value)] => some (name, value)
  | _ => none

/-- How many of `depth` levels are left inside a list, if there is one to spare. -/
def enter? (depth : Nat) : Option Nat :=
  if depth = 0 then none else some (depth - 1)

/-- The levels left inside a constant: an object is a level, a string is none. -/
def enterVariant? (depth : Nat) : Json → Option Nat
  | .object _ => enter? depth
  | _ => some depth

/-- A unit read within `depth` levels of nesting. `fuel` bounds the depth of nested units. -/
def toUnit? : (fuel depth : Nat) → Json → Option CodeUnit
  | 0, _, _ => none
  | fuel + 1, depth, j => do
    let depth ← enter? depth
    let [name, firstLine, code, consts, lineTable] ← members? j | none
    let depth ← enter? depth
    let consts ← (← consts.items?).mapM fun item => do
      let below ← enterVariant? depth item
      match ← variant? item with
      | ("None", .null) => return .null
      | ("Bool", .bool b) => return .bool b
      | ("Int", value) => return .int (← toInt64? value)
      | ("Float", value) => return .float (← value.float?)
      | ("Str", value) => return .str (← value.text?)
      | ("Bytes", value) => do
        let _ ← enter? below
        return .bytes (← toBytes? value)
      | ("Code", value) => return .unit (← toUnit? fuel below value)
      | _ => none
    return ⟨← name.text?, ← firstLine.word?, ← toBytes? code, consts, ← toBytes? lineTable⟩

end UnitJson

namespace CodeUnit

/-- A unit written as JSON. -/
def toJson (u : CodeUnit) : Json :=
  UnitJson.ofUnit u

/-- The unit that a JSON value describes. -/
def ofJson? (j : Json) : Option CodeUnit :=
  UnitJson.toUnit? (UnitJson.maxDepth + 1) UnitJson.maxDepth j

end CodeUnit

end CoverProbe
