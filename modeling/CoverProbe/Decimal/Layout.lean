import CoverProbe.Decimal.Shortest

set_option relaxedAutoImplicit false
set_option autoImplicit false

/-!
# Layouts of floating-point text

How a value is written once its shortest digits are known: which magnitudes are positional, whether
a whole number keeps a fractional digit, how an exponent is signed.

## Main definitions

* `CoverProbe.FloatLayout` — the decisions of a format.
* `CoverProbe.FloatLayout.render` — the text of a value.
-/

namespace CoverProbe

/-- The decisions that a format makes about floating-point text. A value has its point at `p` when
its magnitude is `0.d₁d₂… * 10 ^ p` with `d₁` not zero. -/
structure FloatLayout where
  tie : Shortest.Tie
  /-- The least and the greatest point written without an exponent, if there are bounds. -/
  positional : Option (Int × Int)
  /-- Does a whole number end in `.0`? -/
  wholePoint : Bool
  /-- Does a positive exponent carry a sign? -/
  plusExponent : Bool

namespace FloatLayout

/-- The digits of a magnitude with point at `p`, written without an exponent. -/
def positionalText (wholePoint : Bool) (digits : List Char) (p : Int) : List Char :=
  if p ≤ 0 then '0' :: '.' :: List.replicate (-p).toNat '0' ++ digits
  else if digits.length ≤ p.toNat then
    digits ++ List.replicate (p.toNat - digits.length) '0' ++
      (if wholePoint then ['.', '0'] else [])
  else digits.take p.toNat ++ '.' :: digits.drop p.toNat

/-- The digits of a magnitude with point at `p`, written with an exponent. -/
def scientificText (plusExponent : Bool) (digits : List Char) (p : Int) : List Char :=
  let power := p - 1
  let sign := if power < 0 then ['-'] else if plusExponent then ['+'] else []
  let exponent := 'e' :: sign ++ Nat.toDigits 10 power.natAbs
  match digits with
  | first :: second :: more => first :: '.' :: second :: more ++ exponent
  | _ => digits ++ exponent

/-- The text of a finite value's magnitude. -/
def magnitudeText (layout : FloatLayout) (x : Binary64) : List Char :=
  if x.significand = 0 then if layout.wholePoint then ['0', '.', '0'] else ['0']
  else
    let (number, power) := Shortest.decimal layout.tie x
    let digits := Nat.toDigits 10 number
    let p := digits.length + power
    if layout.positional.all fun (low, high) => low ≤ p && p ≤ high then
      positionalText layout.wholePoint digits p
    else scientificText layout.plusExponent digits p

/-- The text of a value; the words of values that are not finite are `NaN` and `inf`. -/
def render (layout : FloatLayout) (x : Binary64) : String :=
  if x.isNaN then "NaN"
  else
    let magnitude := if x.isInfinite then ['i', 'n', 'f'] else layout.magnitudeText x
    String.ofList (if x.negative then '-' :: magnitude else magnitude)

end FloatLayout

end CoverProbe
