set_option relaxedAutoImplicit false
set_option autoImplicit false

/-!
# Hexadecimal text

Numbers and byte strings in base sixteen.

## Main definitions

* `CoverProbe.Hex.value?` — the value of a hexadecimal digit of either case.
* `CoverProbe.Hex.lower`, `CoverProbe.Hex.upper` — a number in base sixteen.
* `CoverProbe.Hex.ofBytes`, `CoverProbe.Hex.toBytes?` — two digits per byte, high half first.
-/

namespace CoverProbe.Hex

/-- The value of a hexadecimal digit of either case. -/
def value? (c : Char) : Option Nat :=
  if '0' ≤ c ∧ c ≤ '9' then some (c.toNat - 48)
  else if 'a' ≤ c ∧ c ≤ 'f' then some (c.toNat - 87)
  else if 'A' ≤ c ∧ c ≤ 'F' then some (c.toNat - 55)
  else none

/-- The number in lower-case base sixteen, at least `width` digits wide. -/
def lower (width n : Nat) : String :=
  String.ofList ((Nat.toDigits 16 n).leftpad width '0')

/-- The number in upper-case base sixteen, at least `width` digits wide. -/
def upper (width n : Nat) : String :=
  String.ofList (((Nat.toDigits 16 n).map Char.toUpper).leftpad width '0')

/-- Two lower-case digits per byte, high half first. -/
def ofBytes (bs : List UInt8) : String :=
  String.ofList (bs.flatMap fun b => [Nat.digitChar (b.toNat / 16), Nat.digitChar (b.toNat % 16)])

/-- The bytes written by pairs of digits, if the text is such pairs. -/
def pairs? : List Char → Option (List UInt8)
  | [] => some []
  | [_] => none
  | high :: low :: rest => do
    let h ← value? high
    let l ← value? low
    let bs ← pairs? rest
    return UInt8.ofNat (16 * h + l) :: bs

/-- The bytes written by a text of digit pairs. -/
def toBytes? (s : String) : Option (List UInt8) :=
  pairs? s.toList

/-- The number written by a text of one or more digits. -/
def toNat? (s : String) : Option Nat :=
  if s.isEmpty then none
  else s.toList.foldlM (fun n c => (value? c).map (16 * n + ·)) 0

end CoverProbe.Hex
