set_option relaxedAutoImplicit false
set_option autoImplicit false

/-!
# Binary64 values

A 64-bit floating-point value is its bit pattern: two values are the same exactly when their bits
are, so the payload of a NaN and the sign of a zero count. A finite value is a significand times a
power of two; a quotient of natural numbers rounds to the nearest value, a tie to the even
significand.

## Main definitions

* `CoverProbe.Binary64` — the values.
* `CoverProbe.Binary64.significand`, `CoverProbe.Binary64.exponent` — a finite value's magnitude is
  `significand * 2 ^ exponent`.
* `CoverProbe.Binary64.rank` — where a number stands among all; numbers are compared by it.
* `CoverProbe.Binary64.ofRatio` — the value nearest to a quotient.
* `CoverProbe.Binary64.ofDecimal` — the value nearest to a decimal.
-/

namespace CoverProbe

/-- A 64-bit floating-point value, told apart by its bits. -/
structure Binary64 where
  bits : UInt64
deriving DecidableEq, Repr

namespace Binary64

/-! ## Parts -/

/-- Is the sign bit set? -/
def negative (x : Binary64) : Bool :=
  9223372036854775808 ≤ x.bits.toNat

/-- The eleven bits of the exponent field. -/
def exponentField (x : Binary64) : Nat :=
  x.bits.toNat / 4503599627370496 % 2048

/-- The fifty-two bits of the fraction field. -/
def fraction (x : Binary64) : Nat :=
  x.bits.toNat % 4503599627370496

def isNaN (x : Binary64) : Bool :=
  x.exponentField = 2047 && x.fraction ≠ 0

def isInfinite (x : Binary64) : Bool :=
  x.exponentField = 2047 && x.fraction = 0

def isFinite (x : Binary64) : Bool :=
  x.exponentField ≠ 2047

/-- The significand of a finite value. -/
def significand (x : Binary64) : Nat :=
  if x.exponentField = 0 then x.fraction else 4503599627370496 + x.fraction

/-- The power of two of a finite value. -/
def exponent (x : Binary64) : Int :=
  if x.exponentField = 0 then -1074 else x.exponentField - 1075

/-! ## Values -/

/-- The value with a sign and 63 bits of exponent and fraction. -/
def ofParts (negative : Bool) (rest : Nat) : Binary64 :=
  ⟨UInt64.ofNat ((if negative then 9223372036854775808 else 0) + rest)⟩

def zero (negative : Bool) : Binary64 :=
  ofParts negative 0

def infinity (negative : Bool) : Binary64 :=
  ofParts negative 9218868437227405312

/-- The quiet NaN without payload. -/
def nan (negative : Bool) : Binary64 :=
  ofParts negative 9221120237041090560

def one : Binary64 :=
  ⟨0x3FF0000000000000⟩

/-- The value as a machine float. -/
def toFloat (x : Binary64) : Float :=
  Float.ofBits x.bits

/-! ## Order -/

/-- Where a number stands among all: a greater exponent or fraction makes a number lie farther from
zero, and the two zeros stand at one place. -/
def rank (x : Binary64) : Int :=
  if x.negative then 9223372036854775808 - x.bits.toNat else x.bits.toNat

/-- A value that is no number is not comparable with any. -/
instance : LE Binary64 :=
  ⟨fun x y => x.isNaN = false ∧ y.isNaN = false ∧ x.rank ≤ y.rank⟩

instance : LT Binary64 :=
  ⟨fun x y => x.isNaN = false ∧ y.isNaN = false ∧ x.rank < y.rank⟩

instance (x y : Binary64) : Decidable (x ≤ y) :=
  inferInstanceAs (Decidable (_ ∧ _ ∧ _))

instance (x y : Binary64) : Decidable (x < y) :=
  inferInstanceAs (Decidable (_ ∧ _ ∧ _))

/-! ## Rounding -/

/-- The quotient of `num * 2 ^ (-q)` by `den`, as a fraction of natural numbers. -/
def scaled (num den : Nat) (q : Int) : Nat × Nat :=
  if 0 ≤ q then (num, den * Nat.pow 2 q.toNat) else (num * Nat.pow 2 (-q).toNat, den)

/-- The integer nearest to `num / den`, a tie going to the even one. -/
def roundQuotient (num den : Nat) : Nat :=
  let quotient := num / den
  let rest := num % den
  if den < 2 * rest ∨ (2 * rest = den ∧ quotient % 2 = 1) then quotient + 1 else quotient

/-- The power of two at which `num / den` has a significand below `2 ^ 53` and, unless it is
subnormal, at least `2 ^ 52`. -/
def scaleOf (num den : Nat) : Int :=
  let q : Int := max ((Nat.log2 num : Int) - Nat.log2 den - 53) (-1074)
  let (n, d) := scaled num den q
  if 9007199254740992 ≤ n / d then q + 1 else q

/-- The value nearest to `num / den`. The exponent and the fraction field are written as one number,
so a significand rounded up to `2 ^ 53` carries into the exponent. -/
def ofRatio (negative : Bool) (num den : Nat) : Binary64 :=
  if num = 0 then zero negative
  else
    let q := scaleOf num den
    let (n, d) := scaled num den q
    let rest := (q + 1074).toNat * 4503599627370496 + roundQuotient n d
    if 9218868437227405312 ≤ rest then infinity negative else ofParts negative rest

/-- The value nearest to `digits * 10 ^ power`. Decimals far outside the range of finite values are
settled by their size alone. -/
def ofDecimal (negative : Bool) (digits : Nat) (power : Int) : Binary64 :=
  let size : Int := (Nat.toDigits 10 digits).length + power
  if digits = 0 ∨ size < -330 then zero negative
  else if 310 < size then infinity negative
  else if 0 ≤ power then ofRatio negative (digits * Nat.pow 10 power.toNat) 1
  else ofRatio negative digits (Nat.pow 10 (-power).toNat)

/-- The value nearest to an integer. -/
def ofInt (z : Int) : Binary64 :=
  ofRatio (z < 0) z.natAbs 1

end Binary64

end CoverProbe
