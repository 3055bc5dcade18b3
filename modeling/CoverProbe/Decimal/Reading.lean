import CoverProbe.Decimal.Binary64

set_option relaxedAutoImplicit false
set_option autoImplicit false

/-!
# Reading numbers

Integers between bounds and floating-point values from the text of a source line or a command line.

## Main definitions

* `CoverProbe.Decimal.natural`, `CoverProbe.Decimal.integer` — integers between bounds.
* `CoverProbe.Decimal.float` — a floating-point value.
* `CoverProbe.Decimal.Numeral` — the parts of an unsigned decimal with fraction and exponent.
-/

namespace CoverProbe

/-! ## Faults -/

/-- Why a text is no integer between given bounds. -/
inductive IntegerFault
  | empty
  | invalidDigit
  | tooLarge
  | tooSmall
deriving DecidableEq, Repr

/-- The text of an integer fault. -/
def IntegerFault.message : IntegerFault → String
  | empty => "cannot parse integer from empty string"
  | invalidDigit => "invalid digit found in string"
  | tooLarge => "number too large to fit in target type"
  | tooSmall => "number too small to fit in target type"

/-- Why a text is no floating-point value. -/
inductive FloatFault
  | empty
  | invalid
deriving DecidableEq, Repr

/-- The text of a float fault. -/
def FloatFault.message : FloatFault → String
  | empty => "cannot parse float from empty string"
  | invalid => "invalid float literal"

namespace Decimal

/-! ## Integers -/

/-- Is this an ASCII digit? -/
def isDigit (c : Char) : Bool :=
  '0' ≤ c && c ≤ '9'

/-- The value of an ASCII digit. -/
def digitValue (c : Char) : Nat :=
  c.toNat - 48

/-- Reads digits behind the number `n`, up to `bound`. The first character that is no digit, or that
leads above the bound, is the fault. -/
def digitsUpTo (bound : Nat) (above : IntegerFault) (n : Nat) :
    List Char → Except IntegerFault Nat
  | [] => .ok n
  | c :: rest =>
    if isDigit c then
      let next := 10 * n + digitValue c
      if bound < next then .error above else digitsUpTo bound above next rest
    else .error .invalidDigit

/-- Reads a natural number up to `bound`, with an optional plus sign. -/
def natural (bound : Nat) : List Char → Except IntegerFault Nat
  | [] => .error .empty
  | '+' :: c :: rest => digitsUpTo bound .tooLarge 0 (c :: rest)
  | text => digitsUpTo bound .tooLarge 0 text

/-- Reads an integer from `-below` to `above`, with an optional sign. -/
def integer (below above : Nat) : List Char → Except IntegerFault Int
  | [] => .error .empty
  | '+' :: c :: rest => (digitsUpTo above .tooLarge 0 (c :: rest)).map Int.ofNat
  | '-' :: c :: rest => (digitsUpTo below .tooSmall 0 (c :: rest)).map fun n => -(n : Int)
  | text => (digitsUpTo above .tooLarge 0 text).map Int.ofNat

/-- Reads a 32-bit word. -/
def word (text : List Char) : Except IntegerFault UInt32 :=
  (natural 4294967295 text).map UInt32.ofNat

/-- Reads a 64-bit word. -/
def longWord (text : List Char) : Except IntegerFault UInt64 :=
  (natural 18446744073709551615 text).map UInt64.ofNat

/-- Reads a 64-bit two's-complement integer. -/
def int64 (text : List Char) : Except IntegerFault Int64 :=
  (integer 9223372036854775808 9223372036854775807 text).map Int64.ofInt

/-! ## Floating-point values -/

/-- The number that digits spell. -/
def number (digits : List Char) : Nat :=
  digits.foldl (fun n c => 10 * n + digitValue c) 0

/-- An unsigned decimal: the digits before and after the point, and the exponent. -/
structure Numeral where
  whole : List Char
  fraction : List Char
  exponent : Int

/-- The value nearest to a decimal. -/
def Numeral.value (negative : Bool) (n : Numeral) : Binary64 :=
  Binary64.ofDecimal negative (number (n.whole ++ n.fraction)) (n.exponent - n.fraction.length)

/-- Reads an exponent behind its mark: an optional sign and digits up to the end. -/
def exponent? (text : List Char) : Option Int :=
  let (negative, digits) :=
    match text with
    | '-' :: rest => (true, rest)
    | '+' :: rest => (false, rest)
    | _ => (false, text)
  if digits ≠ [] ∧ digits.all isDigit then
    some (if negative then -(number digits : Int) else number digits)
  else none

/-- Reads an unsigned decimal with digits before or after the point. -/
def numeral? (text : List Char) : Option Numeral :=
  let whole := text.takeWhile isDigit
  let rest := text.dropWhile isDigit
  let (fraction, rest) :=
    match rest with
    | '.' :: rest => (rest.takeWhile isDigit, rest.dropWhile isDigit)
    | _ => ([], rest)
  if whole = [] ∧ fraction = [] then none
  else
    match rest with
    | [] => some ⟨whole, fraction, 0⟩
    | mark :: rest =>
      if mark = 'e' ∨ mark = 'E' then (exponent? rest).map fun e => ⟨whole, fraction, e⟩
      else none

/-- Reads an unsigned value: a decimal, or the name of an infinity or a NaN in any case. -/
def magnitude? (negative : Bool) (text : List Char) : Option Binary64 :=
  match numeral? text with
  | some n => some (n.value negative)
  | none =>
    let name := String.ofList (text.map Char.toLower)
    if name = "inf" ∨ name = "infinity" then some (.infinity negative)
    else if name = "nan" then some (.nan negative)
    else none

/-- Reads a floating-point value with an optional sign. A decimal beyond the finite values is an
infinity. -/
def float (text : List Char) : Except FloatFault Binary64 :=
  match text with
  | [] => .error .empty
  | c :: rest =>
    let found :=
      if c = '-' then magnitude? true rest
      else if c = '+' then magnitude? false rest
      else magnitude? false text
    match found with
    | some x => .ok x
    | none => .error .invalid

end Decimal

end CoverProbe
