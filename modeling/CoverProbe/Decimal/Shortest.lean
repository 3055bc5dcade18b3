import CoverProbe.Decimal.Binary64

set_option relaxedAutoImplicit false
set_option autoImplicit false

/-!
# Shortest decimals

The shortest decimal that reads back as a finite non-zero value: among the decimals that round to
the value, one with the fewest digits, and of these the nearest to it.

The reals that round to the value form an interval around it whose ends belong to it exactly when
the significand is even. For one digit, two digits, … the value has two neighbours on the decimal
grid of that many digits. The first grid with a neighbour inside the interval gives the digits.

## Main definitions

* `CoverProbe.Shortest.Tie` — which neighbour is taken when both are equally near.
* `CoverProbe.Shortest.decimal` — the digits and the power of ten.
-/

namespace CoverProbe.Shortest

/-- Which of two equally near neighbours is taken. -/
inductive Tie
  /-- The one with an even last digit. -/
  | even
  /-- The one further from zero. -/
  | up
deriving DecidableEq, Repr

/-- The interval of reals that round to a value, over one denominator. -/
structure Interval where
  low : Nat
  value : Nat
  high : Nat
  denominator : Nat
  /-- Do the ends belong to the interval? -/
  closed : Bool

/-- The interval of the reals that round to the magnitude of a finite value. Below a power of two
the values lie twice as close. -/
def interval (x : Binary64) : Interval :=
  let m := x.significand
  let q := x.exponent - 2
  let below := if x.fraction = 0 ∧ 1 < x.exponentField then 1 else 2
  let unit := if 0 ≤ q then Nat.pow 2 q.toNat else 1
  let denominator := if 0 ≤ q then 1 else Nat.pow 2 (-q).toNat
  ⟨(4 * m - below) * unit, 4 * m * unit, (4 * m + 2) * unit, denominator, m % 2 = 0⟩

/-- Does the fraction `num / den` belong to the interval? -/
def Interval.contains (i : Interval) (num den : Nat) : Bool :=
  if i.closed then i.low * den ≤ num * i.denominator && num * i.denominator ≤ i.high * den
  else i.low * den < num * i.denominator && num * i.denominator < i.high * den

/-- The power of ten of the leading digit of the interval's value. -/
def Interval.magnitude (i : Interval) : Int :=
  if i.denominator ≤ i.value then (Nat.toDigits 10 (i.value / i.denominator)).length - 1
  else -((Nat.toDigits 10 (i.denominator / i.value)).length : Int)

/-- The decimal of the grid of `10 ^ power` that the interval's value takes, if that grid has a
neighbour of the value in the interval. -/
def Interval.pick (tie : Tie) (i : Interval) (power : Int) : Option Nat :=
  let up := if 0 ≤ power then Nat.pow 10 power.toNat else 1
  let down := if 0 ≤ power then 1 else Nat.pow 10 (-power).toNat
  let lower := i.value * down / (i.denominator * up)
  let lowerIn := i.contains (lower * up) down
  let upperIn := i.contains ((lower + 1) * up) down
  if lowerIn && upperIn then
    let twice := 2 * i.value * down
    let middle := (2 * lower + 1) * up * i.denominator
    if twice < middle then some lower
    else if middle < twice then some (lower + 1)
    else some (if tie = .even ∧ lower % 2 = 0 then lower else lower + 1)
  else if lowerIn then some lower
  else if upperIn then some (lower + 1)
  else none

/-- The number without its trailing zeros, which are counted into the power; `fuel` bounds their
number. -/
def trimZeros : (fuel digits : Nat) → (power : Int) → Nat × Int
  | 0, digits, power => (digits, power)
  | fuel + 1, digits, power =>
    if digits ≠ 0 ∧ digits % 10 = 0 then trimZeros fuel (digits / 10) (power + 1)
    else (digits, power)

/-- The first grid, from `count` digits on, that has a decimal in the interval; `fuel` grids are
tried. Seventeen digits always suffice. -/
def search (tie : Tie) (i : Interval) : (fuel count : Nat) → Nat × Int
  | 0, _ => (0, 0)
  | fuel + 1, count =>
    let power := i.magnitude - count + 1
    match i.pick tie power with
    | some digits => trimZeros 18 digits power
    | none => search tie i fuel (count + 1)

/-- The digits and the power of ten of the shortest decimal of a finite value's magnitude. -/
def decimal (tie : Tie) (x : Binary64) : Nat × Int :=
  if x.significand = 0 then (0, 0) else search tie (interval x) 17 1

end CoverProbe.Shortest
