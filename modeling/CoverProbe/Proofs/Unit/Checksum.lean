import Mathlib.Tactic.Lemma
import Mathlib.Tactic.Ring
import CoverProbe.Proofs.Word
import CoverProbe.Unit.Checksum

set_option relaxedAutoImplicit false
set_option autoImplicit false

/-!
# The register of the checksum

One step of the register is linear in exclusive or, and no register but zero steps to zero, because
the polynomial has its top bit set. So steps never merge two registers. A word whose low bits are
clear only moves down, hence up to four bytes enter the register as the one word that they spell:
what comes out tells them apart.

## Main results

* `CoverProbe.Checksum.shift_injective`, `CoverProbe.Checksum.feedAll_injective` — registers are
  never merged, neither by a bit nor by bytes.
* `CoverProbe.Checksum.feedAll_eq_repeat_shift` — up to four bytes enter as one word.
* `CoverProbe.Checksum.eq_of_feedAll_eq` — up to four bytes are told by the register they leave.
* `CoverProbe.Checksum.crc32_eq_iff_residue` — bytes with their checksum behind them are those that
  leave a fixed register.
-/

namespace CoverProbe.Checksum

/-! ## One step -/

/-- What a step adds to the register: the polynomial if a one falls out. -/
def reduction (register : UInt32) : UInt32 :=
  if register.toNat % 2 = 1 then 0xEDB88320 else 0

/-- The low bit as a remainder. -/
lemma low_eq_one_iff (register : UInt32) : register &&& 1 = 1 ↔ register.toNat % 2 = 1 := by
  rw [← UInt32.toNat_inj, UInt32.toNat_and]
  simp [Nat.and_one_is_mod]

/-- A step as an exclusive or. -/
lemma shift_eq (register : UInt32) : shift register = (register >>> 1) ^^^ reduction register := by
  simp only [shift, reduction, low_eq_one_iff]
  split_ifs
  · rfl
  · exact UInt32.xor_zero.symm

/-- Two ones that fall out cancel. -/
lemma reduction_xor (a b : UInt32) : reduction (a ^^^ b) = reduction a ^^^ reduction b := by
  have hlow : (a ^^^ b).toNat % 2 = a.toNat % 2 ^^^ b.toNat % 2 := by
    rw [UInt32.toNat_xor]
    exact Nat.xor_mod_two_pow (n := 1)
  simp only [reduction, hlow]
  rcases Nat.mod_two_eq_zero_or_one a.toNat with ha | ha <;>
    rcases Nat.mod_two_eq_zero_or_one b.toNat with hb | hb <;>
      simp [ha, hb]

/-- A step is linear in exclusive or. -/
lemma shift_xor (a b : UInt32) : shift (a ^^^ b) = shift a ^^^ shift b := by
  simp only [shift_eq, UInt32.shiftRight_xor, reduction_xor]
  ac_rfl

/-- A word whose low bit is clear moves down. -/
lemma shift_double {n : Nat} (h : n < 2147483648) :
    shift (UInt32.ofNat (2 * n)) = UInt32.ofNat n := by
  have hword : (UInt32.ofNat (2 * n)).toNat = 2 * n := Word.toNat_ofNat_of_fits (by omega)
  have hclear : reduction (UInt32.ofNat (2 * n)) = 0 := by
    rw [reduction, hword, if_neg (by omega)]
  rw [shift_eq, hclear, UInt32.xor_zero, ← UInt32.toNat_inj, UInt32.toNat_shiftRight, hword,
    Word.toNat_ofNat_of_fits (by omega)]
  exact Nat.mul_div_cancel_left n (by decide)

/-- No register but zero steps to zero: the polynomial's top bit stays where a one falls out. -/
lemma eq_zero_of_shift_eq_zero {register : UInt32} (h : shift register = 0) : register = 0 := by
  rw [shift_eq, UInt32.xor_eq_zero_iff] at h
  have hhalf : register.toNat / 2 = (reduction register).toNat := by
    rw [← h, UInt32.toNat_shiftRight]
    rfl
  have hbound := register.toNat_lt
  apply UInt32.toNat_inj.1
  rw [reduction] at hhalf
  split_ifs at hhalf with hodd
  · have hpoly : (0xEDB88320 : UInt32).toNat = 3988292384 := rfl
    omega
  · have hzero : (0 : UInt32).toNat = 0 := rfl
    omega

/-- **A step merges no two registers.** -/
theorem shift_injective : Function.Injective shift := by
  intro a b h
  apply UInt32.xor_eq_zero_iff.1
  apply eq_zero_of_shift_eq_zero
  rw [shift_xor, h, UInt32.xor_self]

/-! ## Several steps -/

/-- Several steps merge no two registers. -/
lemma repeat_shift_injective (count : Nat) : Function.Injective (Nat.repeat shift count) := by
  induction count with
  | zero => exact fun _ _ h => h
  | succ count ih => exact fun _ _ h => ih (shift_injective h)

/-- Several steps are linear in exclusive or. -/
lemma repeat_shift_xor (count : Nat) (a b : UInt32) :
    Nat.repeat shift count (a ^^^ b) = Nat.repeat shift count a ^^^ Nat.repeat shift count b := by
  induction count with
  | zero => rfl
  | succ count ih => rw [Nat.repeat, ih, shift_xor]; rfl

/-- Steps after steps. -/
lemma repeat_shift_add (count more : Nat) (register : UInt32) :
    Nat.repeat shift (count + more) register =
      Nat.repeat shift more (Nat.repeat shift count register) := by
  induction more with
  | zero => rfl
  | succ more ih => exact congrArg shift ih

/-- A word whose low bits are clear moves down by as many. -/
lemma repeat_shift_scaled (count n : Nat) (h : 2 ^ count * n < 4294967296) :
    Nat.repeat shift count (UInt32.ofNat (2 ^ count * n)) = UInt32.ofNat n := by
  induction count generalizing n with
  | zero => simp [Nat.repeat]
  | succ count ih =>
    have hdouble : 2 ^ (count + 1) * n = 2 ^ count * (2 * n) := by ring
    have hone : 2 * n ≤ 2 ^ count * (2 * n) := Nat.le_mul_of_pos_left _ (Nat.two_pow_pos count)
    rw [hdouble] at h ⊢
    rw [Nat.repeat, ih (2 * n) h, shift_double (by omega)]

/-! ## Bytes -/

/-- Bytes after bytes. -/
lemma feedAll_append (register : UInt32) (bs more : List UInt8) :
    feedAll register (bs ++ more) = feedAll (feedAll register bs) more :=
  List.foldl_append

/-- **Bytes merge no two registers.** -/
theorem feedAll_injective (bs : List UInt8) : Function.Injective fun register =>
    feedAll register bs := by
  induction bs with
  | nil => exact fun _ _ h => h
  | cons b rest ih =>
    intro r s h
    exact (UInt32.xor_left_inj b.toUInt32).1 (repeat_shift_injective 8 (ih h))

/-- A byte below a multiple of its range has no bit in common with it. -/
lemma xor_scaled {low high : Nat} (h : low < 2 ^ 8) :
    low ^^^ 2 ^ 8 * high = 2 ^ 8 * high + low := by
  apply Nat.eq_of_testBit_eq
  intro i
  rw [Nat.testBit_xor, Nat.testBit_two_pow_mul_add high h, Nat.testBit_two_pow_mul]
  split_ifs with hi
  · simp [Nat.not_le.2 hi]
  · have hlow : low.testBit i = false :=
      Nat.testBit_lt_two_pow (h.trans_le (Nat.pow_le_pow_right (by decide) (Nat.not_lt.1 hi)))
    simp [hlow, Nat.not_lt.1 hi]

/-- Up to four bytes spell a word. -/
lemma value_lt_of_length_le {bs : List UInt8} {count : Nat} (h : bs.length ≤ count) :
    Word.value bs < 256 ^ count :=
  (Word.value_lt bs).trans_le (Nat.pow_le_pow_right (by decide) h)

/-- A word is its low byte and, above it, the rest. -/
lemma ofNat_value_cons {b : UInt8} {rest : List UInt8} (h : rest.length ≤ 3) :
    UInt32.ofNat (Word.value (b :: rest)) =
      b.toUInt32 ^^^ UInt32.ofNat (2 ^ 8 * Word.value rest) := by
  have hrest : Word.value rest < 256 ^ 3 := value_lt_of_length_le h
  have hb := b.toNat_lt
  rw [← UInt32.toNat_inj, UInt32.toNat_xor, UInt8.toNat_toUInt32, Word.value,
    Word.toNat_ofNat_of_fits (by omega), Word.toNat_ofNat_of_fits (by omega), xor_scaled hb]
  omega

/-- **Up to four bytes enter the register as the word that they spell.**

**Proof sketch.** By induction on the bytes. The word that the others spell stands above the first
byte, where the eight steps of that byte move it down to its own place. -/
theorem feedAll_eq_repeat_shift (register : UInt32) (bs : List UInt8) (h : bs.length ≤ 4) :
    feedAll register bs =
      Nat.repeat shift (8 * bs.length) (register ^^^ UInt32.ofNat (Word.value bs)) := by
  induction bs generalizing register with
  | nil => exact UInt32.xor_zero.symm
  | cons b rest ih =>
    have hshort : rest.length ≤ 3 := Nat.le_of_succ_le_succ h
    have hfits : 2 ^ 8 * Word.value rest < 4294967296 := by
      have hrest : Word.value rest < 256 ^ 3 := value_lt_of_length_le hshort
      omega
    calc feedAll register (b :: rest)
        = Nat.repeat shift (8 * rest.length)
            (feed register b ^^^ UInt32.ofNat (Word.value rest)) :=
          ih (feed register b) (hshort.trans (by decide))
      _ = Nat.repeat shift (8 * rest.length)
            (Nat.repeat shift 8 (register ^^^ UInt32.ofNat (Word.value (b :: rest)))) := by
          rw [ofNat_value_cons hshort, ← UInt32.xor_assoc, repeat_shift_xor 8,
            repeat_shift_scaled 8 _ hfits]
          rfl
      _ = Nat.repeat shift (8 * (b :: rest).length)
            (register ^^^ UInt32.ofNat (Word.value (b :: rest))) := by
          rw [← repeat_shift_add, List.length_cons]
          congr 1
          omega

/-- The word that up to four bytes spell tells bytes of one length apart. -/
lemma eq_of_ofNat_value_eq {bs others : List UInt8} (hlen : others.length = bs.length)
    (h : bs.length ≤ 4) (hword : UInt32.ofNat (Word.value others) = UInt32.ofNat (Word.value bs)) :
    others = bs := by
  have hothers : Word.value others < 256 ^ 4 := value_lt_of_length_le (hlen ▸ h)
  have hbs : Word.value bs < 256 ^ 4 := value_lt_of_length_le h
  have hvalue : Word.value others = Word.value bs := by
    rw [← Word.toNat_ofNat_of_fits hothers, hword, Word.toNat_ofNat_of_fits hbs]
  rw [← Word.bytes_value others, hvalue, hlen, Word.bytes_value]

/-- **Up to four bytes are told by the register that they leave.** -/
theorem eq_of_feedAll_eq {register : UInt32} {bs others : List UInt8}
    (hlen : others.length = bs.length) (h : bs.length ≤ 4)
    (hleft : feedAll register others = feedAll register bs) : others = bs := by
  rw [feedAll_eq_repeat_shift register others (hlen ▸ h), feedAll_eq_repeat_shift register bs h,
    hlen] at hleft
  exact eq_of_ofNat_value_eq hlen h
    ((UInt32.xor_right_inj register).1 (repeat_shift_injective _ hleft))

/-! ## The residue -/

/-- The mask of an exclusive or and its outcome change places. -/
lemma xor_eq_iff_xor_eq {a b c : UInt32} : a ^^^ b = c ↔ a ^^^ c = b := by
  rw [← UInt32.xor_right_inj a, ← UInt32.xor_assoc, UInt32.xor_self, UInt32.zero_xor, eq_comm]

/-- The register that bytes with their checksum behind them leave. -/
def residue : UInt32 :=
  Nat.repeat shift 32 0xFFFFFFFF

/-- **Bytes with their checksum behind them are those that leave the residue.** -/
theorem crc32_eq_iff_residue {bs trailer : List UInt8} (h : trailer.length = 4) :
    crc32 bs = UInt32.ofNat (Word.value trailer) ↔
      feedAll 0xFFFFFFFF (bs ++ trailer) = residue := by
  rw [feedAll_append, feedAll_eq_repeat_shift _ trailer h.le, h, residue,
    (repeat_shift_injective 32).eq_iff, crc32]
  exact xor_eq_iff_xor_eq

end CoverProbe.Checksum
