set_option relaxedAutoImplicit false
set_option autoImplicit false

/-!
# 32-bit words

Offsets, operands and line numbers are 32-bit words. Sums of them are taken in `Nat` or `Int` and
come back through the checked conversions of this file; on disk a word is its bytes, least
significant first.

## Main definitions

* `CoverProbe.Word.ofNat?`, `CoverProbe.Word.ofInt?` — the word with a given value, if there is one.
* `CoverProbe.Word.bytes` — the low bytes of a number, least significant first.
* `CoverProbe.Word.value` — the number that bytes spell, least significant first.
-/

namespace CoverProbe.Word

/-! ## Checked conversions -/

/-- The word with value `n`, if `n` is below `2 ^ 32`. -/
def ofNat? (n : Nat) : Option UInt32 :=
  if n < 4294967296 then some (UInt32.ofNat n) else none

/-- The word with value `z`, if `z` lies in `[0, 2 ^ 32)`. -/
def ofInt? (z : Int) : Option UInt32 :=
  if 0 ≤ z then ofNat? z.toNat else none

theorem ofNat?_eq_some_iff {n : Nat} {w : UInt32} : ofNat? n = some w ↔ n = w.toNat := by
  unfold ofNat?
  split
  · rename_i h
    rw [Option.some.injEq]
    constructor
    · rintro rfl
      simp [UInt32.toNat_ofNat', Nat.mod_eq_of_lt h]
    · rintro rfl
      simp
  · rename_i h
    simp only [reduceCtorEq, false_iff]
    rintro rfl
    exact h w.toNat_lt

theorem ofNat?_toNat (w : UInt32) : ofNat? w.toNat = some w :=
  ofNat?_eq_some_iff.2 rfl

theorem ofInt?_eq_some_iff {z : Int} {w : UInt32} : ofInt? z = some w ↔ z = w.toNat := by
  unfold ofInt?
  split
  · rw [ofNat?_eq_some_iff]
    omega
  · simp only [reduceCtorEq, false_iff]
    omega

/-! ## Bytes, least significant first -/

/-- The `count` low bytes of `n`, least significant first. -/
def bytes : (count n : Nat) → List UInt8
  | 0, _ => []
  | count + 1, n => UInt8.ofNat n :: bytes count (n / 256)

/-- The number that the bytes spell, least significant first. -/
def value : List UInt8 → Nat
  | [] => 0
  | b :: rest => b.toNat + 256 * value rest

@[simp]
theorem length_bytes (count n : Nat) : (bytes count n).length = count := by
  induction count generalizing n with
  | zero => rfl
  | succ count ih => simp [bytes, ih]

end CoverProbe.Word
