import Mathlib.Tactic.Lemma
import Mathlib.Tactic.Ring
import CoverProbe.Word

set_option relaxedAutoImplicit false
set_option autoImplicit false

/-!
# Words and their bytes

Numbers that fit are kept by words and spelled by their bytes, and bytes by the number that they
spell.

## Main results

* `CoverProbe.Word.toNat_ofNat_of_fits` — a word keeps a number that fits.
* `CoverProbe.Word.value_bytes`, `CoverProbe.Word.bytes_value` — the two are inverse to each other
  on numbers that fit.
-/

namespace CoverProbe.Word

/-- A word keeps a number that fits. -/
lemma toNat_ofNat_of_fits {n : Nat} (h : n < 4294967296) : (UInt32.ofNat n).toNat = n :=
  UInt32.toNat_ofNat_of_lt' h

/-- Bytes spell a number that fits them. -/
theorem value_lt (bs : List UInt8) : value bs < 256 ^ bs.length := by
  induction bs with
  | nil => simp [value]
  | cons b rest ih =>
    have hb := b.toNat_lt
    simp only [value, List.length_cons, Nat.pow_succ]
    omega

/-- **A number that fits is spelled by its bytes.** -/
theorem value_bytes {count n : Nat} (h : n < 256 ^ count) : value (bytes count n) = n := by
  induction count generalizing n with
  | zero =>
    simp only [Nat.pow_zero] at h
    simp only [bytes, value]
    omega
  | succ count ih =>
    have hq : n / 256 < 256 ^ count := by
      rw [Nat.pow_succ] at h
      omega
    simp only [bytes, value, ih hq, UInt8.toNat_ofNat']
    omega

/-- **Bytes are those of the number they spell.** -/
theorem bytes_value (bs : List UInt8) : bytes bs.length (value bs) = bs := by
  induction bs with
  | nil => rfl
  | cons b rest ih =>
    have hb := b.toNat_lt
    have hq : (b.toNat + 256 * value rest) / 256 = value rest := by omega
    have hr : UInt8.ofNat (b.toNat + 256 * value rest) = b := by
      apply UInt8.toNat_inj.1
      rw [UInt8.toNat_ofNat']
      omega
    simp only [List.length_cons, bytes, value, hq, ih, hr]

end CoverProbe.Word
