import CoverProbe.Document.Basic
import CoverProbe.Toml.Text

set_option relaxedAutoImplicit false
set_option autoImplicit false

/-!
# Plain values in TOML

Truth values, numbers, dates and times. Such a value is a run of letters, digits and a few marks; a
date and a time may have a blank between them.

## Main definitions

* `CoverProbe.Toml.number?` — an integer or a floating-point value.
* `CoverProbe.Toml.isMoment` — dates, times, and both together.
* `CoverProbe.Toml.scalar?` — a plain value at the front of a text.
-/

namespace CoverProbe.Toml

/-! ## Digits -/

/-- Is this a digit in base `base`? -/
def isDigitIn (base : Nat) (c : Char) : Bool :=
  (Hex.value? c).any (· < base)

/-- Digits in base `base` with single underscores between some of them, without the underscores;
`fresh` says whether a digit must come next. -/
def digitsFrom? (base : Nat) (fresh : Bool) : List Char → Option (List Char)
  | [] => if fresh then none else some []
  | c :: rest =>
    if c = '_' then if fresh then none else digitsFrom? base true rest
    else if isDigitIn base c then (digitsFrom? base false rest).map (c :: ·)
    else none

/-- One or more digits in base `base`, without the underscores between them. -/
def digits? (base : Nat) (text : List Char) : Option (List Char) :=
  digitsFrom? base true text

/-- Decimal digits without a leading zero. -/
def whole? (text : List Char) : Option (List Char) :=
  match text with
  | '0' :: _ :: _ => none
  | _ => digits? 10 text

/-- The number that digits spell. -/
def valueIn (base : Nat) (digits : List Char) : Nat :=
  digits.foldl (fun n c => base * n + (Hex.value? c).getD 0) 0

/-! ## Numbers -/

/-- An optional sign, and the text behind it. -/
def sign (text : List Char) : List Char × List Char :=
  match text with
  | '-' :: rest => (['-'], rest)
  | '+' :: rest => (['+'], rest)
  | _ => ([], text)

/-- An integer of 64 bits. -/
def integer? (text : List Char) : Option Int := do
  let value : Int ←
    match text with
    | '0' :: 'x' :: rest => do pure ((valueIn 16 (← digits? 16 rest) : Nat) : Int)
    | '0' :: 'o' :: rest => do pure ((valueIn 8 (← digits? 8 rest) : Nat) : Int)
    | '0' :: 'b' :: rest => do pure ((valueIn 2 (← digits? 2 rest) : Nat) : Int)
    | _ => do
      let (sign, rest) := sign text
      let n : Int := (valueIn 10 (← whole? rest) : Nat)
      pure (if sign = ['-'] then -n else n)
  if -9223372036854775808 ≤ value ∧ value ≤ 9223372036854775807 then some value else none

/-- An exponent behind its mark, without underscores. -/
def exponent? (text : List Char) : Option (List Char) :=
  let (sign, rest) := sign text
  (digits? 10 rest).map (sign ++ ·)

/-- The part of a text before its first character of a kind, and the text from there on. -/
def splitAt (p : Char → Bool) (text : List Char) : List Char × List Char :=
  (text.takeWhile (!p ·), text.dropWhile (!p ·))

/-- A fraction with its point, without underscores; it may be missing. -/
def fraction? : List Char → Option (List Char)
  | [] => some []
  | '.' :: rest => (digits? 10 rest).map ('.' :: ·)
  | _ => none

/-- A decimal with a fraction, an exponent or both, without underscores. -/
def decimal? (text : List Char) : Option (List Char) := do
  let (sign, rest) := sign text
  let (mantissa, power) := splitAt (fun c => c = 'e' || c = 'E') rest
  let (front, back) := splitAt (· = '.') mantissa
  let front ← whole? front
  let fraction ← fraction? back
  match power with
  | [] => do
    guard (fraction ≠ [])
    return sign ++ front ++ fraction
  | _ :: rest => return sign ++ front ++ fraction ++ 'e' :: (← exponent? rest)

/-- A floating-point value. A decimal above the finite values is refused, one below them is the
negative infinity. -/
def float? (text : List Char) : Option Binary64 :=
  match sign text with
  | (sign, ['i', 'n', 'f']) => some (.infinity (sign = ['-']))
  | (sign, ['n', 'a', 'n']) => some (.nan (sign = ['-']))
  | _ => do
    let chars ← decimal? text
    match Decimal.float chars with
    | .ok x => if x = .infinity false then none else some x
    | .error _ => none

/-- A number. -/
def number? (text : List Char) : Option Document :=
  match integer? text with
  | some z => some (.integer z)
  | none => (float? text).map .float

/-! ## Dates and times -/

/-- The number in a field of exactly `width` decimal digits, if it lies between two bounds. -/
def fieldIn? (width low high : Nat) (text : List Char) : Option Nat :=
  if text.length = width ∧ text.all Decimal.isDigit then
    let n := Decimal.number text
    if low ≤ n ∧ n ≤ high then some n else none
  else none

/-- The number of days of a month. -/
def daysOf (year month : Nat) : Nat :=
  if month = 2 then
    if year % 4 = 0 ∧ (year % 100 ≠ 0 ∨ year % 400 = 0) then 29 else 28
  else if month = 4 ∨ month = 6 ∨ month = 9 ∨ month = 11 then 30
  else 31

/-- Is this a date, `YYYY-MM-DD`? -/
def isDate (text : List Char) : Bool :=
  match fieldIn? 4 0 9999 (text.take 4), fieldIn? 2 1 12 ((text.drop 5).take 2) with
  | some year, some month =>
    text[4]? = some '-' && text[7]? = some '-' &&
      (fieldIn? 2 1 (daysOf year month) (text.drop 8)).isSome
  | _, _ => false

/-- Is this a time, `hh:mm:ss`, with or without a fraction of a second? -/
def isTime (text : List Char) : Bool :=
  (fieldIn? 2 0 23 (text.take 2)).isSome && text[2]? = some ':' &&
    (fieldIn? 2 0 59 ((text.drop 3).take 2)).isSome && text[5]? = some ':' &&
    (fieldIn? 2 0 60 ((text.drop 6).take 2)).isSome &&
    match text.drop 8 with
    | [] => true
    | '.' :: rest => rest ≠ [] && rest.all Decimal.isDigit
    | _ => false

/-- Is this a time, possibly with its distance from universal time? -/
def isZonedTime (text : List Char) : Bool :=
  let (clock, zone) := splitAt (fun c => c = 'Z' || c = 'z' || c = '+' || c = '-') text
  isTime clock &&
    match zone with
    | [] | ['Z'] | ['z'] => true
    | sign :: rest =>
      (sign = '+' || sign = '-') && (fieldIn? 2 0 23 (rest.take 2)).isSome &&
        rest[2]? = some ':' && (fieldIn? 2 0 59 (rest.drop 3)).isSome

/-- Is this a date, a time, or a date and a time with a mark between them? -/
def isMoment (text : List Char) : Bool :=
  isDate text || isTime text ||
    (isDate (text.take 10) && (text[10]?.any fun c => c = 'T' || c = 't' || c = ' ') &&
      isZonedTime (text.drop 11))

/-! ## Plain values -/

/-- May the character stand in a plain value? -/
def isScalar (c : Char) : Bool :=
  isBare c || c = '+' || c = '.' || c = ':'

/-- The value of a run of characters. -/
def scalarOf? (text : List Char) : Option Document :=
  if text = "true".toList then some (.bool true)
  else if text = "false".toList then some (.bool false)
  else if isMoment text then some .moment
  else number? text

/-- A plain value at the front of a text. Behind a date, a blank may lead over to a time. -/
def scalar? (text : List Char) : Option (Document × List Char) :=
  let word := text.takeWhile isScalar
  let rest := text.dropWhile isScalar
  match isDate word, rest with
  | true, ' ' :: a :: b :: ':' :: more =>
    let clock := (a :: b :: ':' :: more).takeWhile isScalar
    if isMoment (word ++ ' ' :: clock) then
      some (.moment, (a :: b :: ':' :: more).dropWhile isScalar)
    else none
  | _, _ => (scalarOf? word).map (·, rest)

end CoverProbe.Toml
