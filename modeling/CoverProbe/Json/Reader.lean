import CoverProbe.Json.Basic
import CoverProbe.Text.Hex

set_option relaxedAutoImplicit false
set_option autoImplicit false

/-!
# Reading JSON

A reader for JSON texts. It judges the grammar alone: how deep values nest, how large numbers are
and whether names repeat is left to those who use the value.

## Main definitions

* `CoverProbe.Json.Reader.number?`, `CoverProbe.Json.Reader.text?` — tokens at the front of a text.
* `CoverProbe.Json.Reader.value` — a value at the front of a text.
* `CoverProbe.Json.parse?` — the value of a whole text.
-/

namespace CoverProbe.Json

namespace Reader

/-! ## Numbers -/

/-- Is this one of the four blanks that may stand between tokens? -/
def isSpace (c : Char) : Bool :=
  c = ' ' || c = '\n' || c = '\t' || c = '\r'

/-- The text behind the blanks in front. -/
def skip (text : List Char) : List Char :=
  text.dropWhile isSpace

/-- One or more digits, and the rest. -/
def digits? (text : List Char) : Option (List Char × List Char) :=
  let digits := text.takeWhile Decimal.isDigit
  if digits = [] then none else some (digits, text.dropWhile Decimal.isDigit)

/-- The whole part of a number: digits without a leading zero. -/
def whole? : List Char → Option (List Char × List Char)
  | '0' :: rest => if rest.head?.any Decimal.isDigit then none else some (['0'], rest)
  | text => digits? text

/-- The fraction of a number, empty if there is none. -/
def fraction? : List Char → Option (List Char × List Char)
  | '.' :: rest => (digits? rest).map fun (digits, rest) => ('.' :: digits, rest)
  | text => some ([], text)

/-- The exponent of a number, empty if there is none. -/
def exponent? (text : List Char) : Option (List Char × List Char) :=
  match text with
  | mark :: rest =>
    if mark = 'e' ∨ mark = 'E' then
      match rest with
      | sign :: behind =>
        if sign = '+' ∨ sign = '-' then
          (digits? behind).map fun (digits, rest) => (mark :: sign :: digits, rest)
        else (digits? rest).map fun (digits, rest) => (mark :: digits, rest)
      | [] => none
    else some ([], text)
  | [] => some ([], [])

/-- The spelling of a number. -/
def number? (text : List Char) : Option (List Char × List Char) := do
  let (sign, text) :=
    match text with
    | '-' :: rest => (['-'], rest)
    | _ => ([], text)
  let (whole, text) ← whole? text
  let (fraction, text) ← fraction? text
  let (exponent, text) ← exponent? text
  return (sign ++ whole ++ fraction ++ exponent, text)

/-! ## Strings -/

/-- A part of a string: a character, or a sixteen-bit unit named by an escape. -/
inductive Piece
  | char (c : Char)
  | unit (code : Nat)

/-- The character that a one-letter escape stands for. -/
def escaped? (c : Char) : Option Char :=
  if c = '"' ∨ c = '\\' ∨ c = '/' then some c
  else if c = 'b' then some '\x08'
  else if c = 'f' then some '\x0c'
  else if c = 'n' then some '\n'
  else if c = 'r' then some '\r'
  else if c = 't' then some '\t'
  else none

/-- The pieces of a string up to its closing quote. -/
def pieces? : List Char → Option (List Piece × List Char)
  | [] => none
  | '"' :: rest => some ([], rest)
  | '\\' :: 'u' :: a :: b :: c :: d :: rest => do
    let code ← Hex.toNat? (String.ofList [a, b, c, d])
    let (more, rest) ← pieces? rest
    return (.unit code :: more, rest)
  | '\\' :: c :: rest => do
    let c ← escaped? c
    let (more, rest) ← pieces? rest
    return (.char c :: more, rest)
  | c :: rest => do
    guard (c.toNat ≥ 0x20 ∧ c ≠ '\\')
    let (more, rest) ← pieces? rest
    return (.char c :: more, rest)

/-- Is this the first unit of a surrogate pair? -/
def isHigh (code : Nat) : Bool :=
  0xD800 ≤ code && code < 0xDC00

/-- Is this the second unit of a surrogate pair? -/
def isLow (code : Nat) : Bool :=
  0xDC00 ≤ code && code < 0xE000

/-- The characters of a list of pieces, unless a unit of a surrogate pair stands alone. -/
def join? : List Piece → Option (List Char)
  | [] => some []
  | .char c :: rest => (join? rest).map (c :: ·)
  | .unit high :: .unit low :: rest =>
    if isHigh high then
      if isLow low then
        (join? rest).map (Char.ofNat (0x10000 + (high - 0xD800) * 0x400 + (low - 0xDC00)) :: ·)
      else none
    else if isLow high then none
    else (join? (.unit low :: rest)).map (Char.ofNat high :: ·)
  | .unit code :: rest =>
    if isHigh code || isLow code then none else (join? rest).map (Char.ofNat code :: ·)

/-- The text of a string behind its opening quote. -/
def text? (text : List Char) : Option (Option String × List Char) := do
  let (pieces, rest) ← pieces? text
  return ((join? pieces).map String.ofList, rest)

/-! ## Values -/

/-- The text behind a word, if it begins with the word. -/
def behind? (word : String) (text : List Char) : Option (List Char) :=
  if word.toList.isPrefixOf text then some (text.drop word.length) else none

mutual

/-- A value at the front of a text. `fuel` bounds the number of nested calls. -/
def value : (fuel : Nat) → List Char → Option (Json × List Char)
  | 0, _ => none
  | fuel + 1, text =>
    match skip text with
    | '"' :: rest => (text? rest).map fun (s, rest) => (.string s, rest)
    | '[' :: rest =>
      match skip rest with
      | ']' :: rest => some (.array [], rest)
      | _ => (items fuel rest).map fun (found, rest) => (.array found, rest)
    | '{' :: rest =>
      match skip rest with
      | '}' :: rest => some (.object [], rest)
      | _ => (members fuel rest).map fun (found, rest) => (.object found, rest)
    | 'n' :: rest => (behind? "ull" rest).map (.null, ·)
    | 't' :: rest => (behind? "rue" rest).map (.bool true, ·)
    | 'f' :: rest => (behind? "alse" rest).map (.bool false, ·)
    | text => (number? text).map fun (spelling, rest) => (.number (String.ofList spelling), rest)

/-- One or more items up to the bracket that closes their array. -/
def items : (fuel : Nat) → List Char → Option (List Json × List Char)
  | 0, _ => none
  | fuel + 1, text => do
    let (first, rest) ← value fuel text
    match skip rest with
    | ',' :: rest =>
      let (more, rest) ← items fuel rest
      return (first :: more, rest)
    | ']' :: rest => return ([first], rest)
    | _ => none

/-- One or more members up to the brace that closes their object. -/
def members : (fuel : Nat) → List Char → Option (List (Option String × Json) × List Char)
  | 0, _ => none
  | fuel + 1, text =>
    match skip text with
    | '"' :: rest => do
      let (name, rest) ← text? rest
      let rest ← behind? ":" (skip rest)
      let (first, rest) ← value fuel rest
      match skip rest with
      | ',' :: rest =>
        let (more, rest) ← members fuel rest
        return ((name, first) :: more, rest)
      | '}' :: rest => return ([(name, first)], rest)
      | _ => none
    | _ => none

end

end Reader

/-- The value of a text. Each nested call reads a character, or follows one that did. -/
def parse? (text : String) : Option Json := do
  let chars := text.toList
  let (found, rest) ← Reader.value (2 * chars.length + 2) chars
  guard (Reader.skip rest).isEmpty
  return found

end CoverProbe.Json
