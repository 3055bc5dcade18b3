import CoverProbe.Decimal.Reading
import Mathlib.Tactic.Lemma

set_option relaxedAutoImplicit false
set_option autoImplicit false

/-!
# Reading spelled numbers

A number spelled by digits is read back, leading zeros or not, as long as it fits.

## Main definitions

* `CoverProbe.Decimal.Spells`, `CoverProbe.Decimal.SpellsInt` — texts that spell a number.

## Main results

* `CoverProbe.Decimal.word_of_spells`, `int64_of_spells` — a spelled number is read back.
-/

namespace CoverProbe.Decimal

/-- Digits that spell a natural number. -/
def Spells (text : List Char) (n : Nat) : Prop :=
  text ≠ [] ∧ (∀ c ∈ text, isDigit c = true) ∧ number text = n

instance (text : List Char) (n : Nat) : Decidable (Spells text n) :=
  @instDecidableAnd _ _ _ (@instDecidableAnd _ _ (List.decidableBAll _ text) _)

/-- Digits, with a minus sign before them or not, that spell an integer. -/
def SpellsInt (text : List Char) (i : Int) : Prop :=
  (∃ n, Spells text n ∧ i = n) ∨ ∃ digits n, text = '-' :: digits ∧ Spells digits n ∧ i = -n

/-- Further digits do not make a number smaller. -/
lemma le_foldl_digits (n : Nat) (digits : List Char) :
    n ≤ digits.foldl (fun n c => 10 * n + digitValue c) n := by
  induction digits generalizing n with
  | nil => exact Nat.le_refl n
  | cons c digits ih =>
    have hrest := ih (10 * n + digitValue c)
    rw [List.foldl_cons]
    omega

/-- **Digits are read up to a bound that the number does not exceed.** -/
lemma digitsUpTo_eq {bound : Nat} {above : IntegerFault} {n : Nat} {digits : List Char}
    (h : ∀ c ∈ digits, isDigit c = true)
    (hle : digits.foldl (fun n c => 10 * n + digitValue c) n ≤ bound) :
    digitsUpTo bound above n digits =
      .ok (digits.foldl (fun n c => 10 * n + digitValue c) n) := by
  induction digits generalizing n with
  | nil => rfl
  | cons c digits ih =>
    obtain ⟨hc, hdigits⟩ := List.forall_mem_cons.1 h
    rw [List.foldl_cons] at hle ⊢
    have hnext := le_foldl_digits (10 * n + digitValue c) digits
    rw [digitsUpTo, if_pos hc]
    dsimp only
    rw [if_neg (by omega), ih hdigits hle]

/-- Signs are no digits. -/
lemma Spells.ne_sign {text : List Char} {n : Nat} (h : Spells text n) {c : Char}
    (hc : isDigit c = false) (rest : List Char) : text ≠ c :: rest := by
  rintro rfl
  have hdigit := h.2.1 c List.mem_cons_self
  rw [hc] at hdigit
  exact Bool.false_ne_true hdigit

/-- A spelled number that fits is read back. -/
lemma natural_of_spells {bound n : Nat} {text : List Char} (h : Spells text n) (hn : n ≤ bound) :
    natural bound text = .ok n := by
  unfold natural
  split
  · exact absurd rfl h.1
  · exact absurd rfl (h.ne_sign (by decide) _)
  · obtain ⟨-, hdigits, rfl⟩ := h
    exact digitsUpTo_eq hdigits hn

/-- **A spelled word is read back.** -/
theorem word_of_spells {text : List Char} {v : UInt32} (h : Spells text v.toNat) :
    word text = .ok v := by
  have hlt := v.toNat_lt
  rw [word, natural_of_spells h (by omega)]
  exact congrArg Except.ok UInt32.ofNat_toNat

/-- **A spelled 64-bit integer is read back.** -/
theorem int64_of_spells {text : List Char} {v : Int64} (h : SpellsInt text v.toInt) :
    int64 text = .ok v := by
  have hlow : -9223372036854775808 ≤ v.toInt := v.le_toInt
  have hhigh : v.toInt < 9223372036854775808 := v.toInt_lt
  suffices hread : integer 9223372036854775808 9223372036854775807 text = .ok v.toInt by
    rw [int64, hread]
    exact congrArg Except.ok v.ofInt_toInt
  unfold integer
  rcases h with ⟨n, hspells, hv⟩ | ⟨digits, n, rfl, hspells, hv⟩
  · split
    · exact absurd rfl hspells.1
    · exact absurd rfl (hspells.ne_sign (by decide) _)
    · exact absurd rfl (hspells.ne_sign (by decide) _)
    · obtain ⟨-, hdigits, hn⟩ := hspells
      rw [digitsUpTo_eq hdigits (show number text ≤ _ by omega)]
      show Except.ok (Int.ofNat (number text)) = _
      rw [hn, hv]
      rfl
  · obtain ⟨c, rest, rfl⟩ := List.exists_cons_of_ne_nil hspells.1
    obtain ⟨-, hdigits, hn⟩ := hspells
    have hread : digitsUpTo 9223372036854775808 .tooSmall 0 (c :: rest) = .ok (number (c :: rest)) :=
      digitsUpTo_eq hdigits (show number (c :: rest) ≤ _ by omega)
    simp only [hread]
    show Except.ok (-(number (c :: rest) : Int)) = _
    rw [hn, hv]

end CoverProbe.Decimal
