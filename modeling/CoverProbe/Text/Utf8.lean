set_option relaxedAutoImplicit false
set_option autoImplicit false

/-!
# Encoded text

Bytes as text in UTF-8. Where bytes are no text, the fault is the first position at which no
character begins, with the number of bytes there that can belong to none; if the bytes end inside a
character there is no such number.

## Main definitions

* `CoverProbe.Utf8.decode` — the text that bytes encode.
* `CoverProbe.Utf8.locate` — where bytes stop being text.
-/

namespace CoverProbe

/-- Where bytes stop being text. -/
structure Utf8Fault where
  index : Nat
  /-- The number of bytes that belong to no character, if the bytes do not just end too early. -/
  length : Option Nat
deriving DecidableEq, Repr

/-- The text of an encoding fault. -/
def Utf8Fault.message (f : Utf8Fault) : String :=
  match f.length with
  | some n => s!"invalid utf-8 sequence of {n} bytes from index {f.index}"
  | none => s!"incomplete utf-8 byte sequence from index {f.index}"

namespace Utf8

/-- The ranges of the bytes that may follow a first byte, in order. -/
def followers? (first : UInt8) : Option (List (Nat × Nat)) :=
  let n := first.toNat
  let any := (0x80, 0xBF)
  if n < 0x80 then some []
  else if 0xC2 ≤ n ∧ n ≤ 0xDF then some [any]
  else if n = 0xE0 then some [(0xA0, 0xBF), any]
  else if n = 0xED then some [(0x80, 0x9F), any]
  else if 0xE1 ≤ n ∧ n ≤ 0xEF then some [any, any]
  else if n = 0xF0 then some [(0x90, 0xBF), any, any]
  else if 0xF1 ≤ n ∧ n ≤ 0xF3 then some [any, any, any]
  else if n = 0xF4 then some [(0x80, 0x8F), any, any]
  else none

/-- What is wrong with the bytes of a character behind the first `seen` of them: `some none` if they
end too early, `some (some n)` if the first `n` bytes belong to none. -/
def mismatch? (seen : Nat) : List (Nat × Nat) → List UInt8 → Option (Option Nat)
  | [], _ => none
  | _ :: _, [] => some none
  | (low, high) :: more, b :: rest =>
    if low ≤ b.toNat ∧ b.toNat ≤ high then mismatch? (seen + 1) more rest else some (some seen)

/-- Where bytes, the first of which has position `index`, stop being text. The first `inside` bytes
belong to a character already judged. -/
def locateFrom (index inside : Nat) : List UInt8 → Option Utf8Fault
  | [] => none
  | b :: rest =>
    if 0 < inside then locateFrom (index + 1) (inside - 1) rest
    else
      match followers? b with
      | none => some ⟨index, some 1⟩
      | some ranges =>
        match mismatch? 1 ranges rest with
        | some length => some ⟨index, length⟩
        | none => locateFrom (index + 1) ranges.length rest

/-- Where bytes stop being text. -/
def locate (bs : List UInt8) : Option Utf8Fault :=
  locateFrom 0 0 bs

/-- The text that bytes encode. -/
def decode (bs : List UInt8) : Except Utf8Fault String :=
  match String.fromUTF8? ⟨bs.toArray⟩ with
  | some s => .ok s
  | none => .error ((locate bs).getD ⟨bs.length, none⟩)

/-- The bytes of a text. -/
def encode (s : String) : List UInt8 :=
  s.toUTF8.data.toList

end Utf8

end CoverProbe
