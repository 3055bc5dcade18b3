import CoverProbe.Decimal.Reading

set_option relaxedAutoImplicit false
set_option autoImplicit false

/-!
# JSON values

A JSON text as a tree. Numbers keep their spelling, objects keep the order of their members and
repeated names, so nothing that a reader may have to judge is lost.

## Main definitions

* `CoverProbe.Json` — the values.
* `CoverProbe.Json.integer?`, `CoverProbe.Json.float?` — what a number stands for.

## Implementation notes

A string may name one half of a surrogate pair by an escape. Such a string is well-formed and has no
text; it is kept as `none`.
-/

namespace CoverProbe

/-- A JSON value. -/
inductive Json where
  | null
  | bool (value : Bool)
  /-- A number in its own spelling. -/
  | number (spelling : String)
  /-- A string, with its text unless it names a lone surrogate. -/
  | string (text : Option String)
  | array (items : List Json)
  | object (members : List (Option String × Json))

namespace Json

/-! ## Construction -/

/-- A string with a text. -/
def str (s : String) : Json :=
  .string (some s)

/-- An integer. -/
def int (z : Int) : Json :=
  .number (toString z)

/-- A natural number. -/
def nat (n : Nat) : Json :=
  .number (toString n)

/-- An object with texts for names. -/
def obj (members : List (String × Json)) : Json :=
  .object (members.map fun (name, value) => (some name, value))

/-! ## Numbers -/

/-- The integer that a number stands for. A number with a fraction or an exponent stands for none,
and neither does `-0`, whose sign an integer would lose. -/
def integer? : Json → Option Int
  | number spelling =>
    match spelling.toList with
    | ['-', '0'] => none
    | '-' :: digits =>
      if digits.all Decimal.isDigit then some (-(Decimal.number digits : Int)) else none
    | digits => if digits.all Decimal.isDigit then some (Decimal.number digits) else none
  | _ => none

/-- The integer that a number stands for, if it lies between two bounds. -/
def integerIn? (low high : Int) (j : Json) : Option Int :=
  j.integer?.filter fun z => low ≤ z ∧ z ≤ high

/-- The 32-bit word that a number stands for. -/
def word? (j : Json) : Option UInt32 :=
  (j.integerIn? 0 4294967295).map fun z => UInt32.ofNat z.toNat

/-- The byte that a number stands for. -/
def byte? (j : Json) : Option UInt8 :=
  (j.integerIn? 0 255).map fun z => UInt8.ofNat z.toNat

/-- The finite value nearest to a number. -/
def float? : Json → Option Binary64
  | number spelling =>
    let value :=
      match spelling.toList with
      | '-' :: magnitude => (Decimal.numeral? magnitude).map (Decimal.Numeral.value true)
      | magnitude => (Decimal.numeral? magnitude).map (Decimal.Numeral.value false)
    value.filter (·.isFinite)
  | _ => none

/-! ## Structure -/

/-- The text of a string. -/
def text? : Json → Option String
  | string text => text
  | _ => none

/-- The items of an array. -/
def items? : Json → Option (List Json)
  | array items => some items
  | _ => none

/-- The members of an object with the names as texts. -/
def named (members : List (Option String × Json)) : Option (List (String × Json)) :=
  members.mapM fun (name, value) => name.map (·, value)

end Json

end CoverProbe
