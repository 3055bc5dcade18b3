import Mathlib.Tactic.Lemma
import Mathlib.Tactic.SplitIfs
import CoverProbe.Text.Hex

set_option relaxedAutoImplicit false
set_option autoImplicit false

/-!
# Spelling bytes

Bytes are spelled by pairs of hexadecimal digits, the high half first. A digit has the value of its
place among all digits, in either case.

## Main definitions

* `CoverProbe.Hex.Digit` — a digit and its value.
* `CoverProbe.Hex.Spells` — digits and the bytes that they spell.

## Main results

* `CoverProbe.Hex.value?_eq_some_iff`, `CoverProbe.Hex.pairs?_eq_some_iff` — what is read is what is
  spelled.
* `CoverProbe.Hex.exists_spells` — every byte string can be spelled.
-/

namespace CoverProbe.Hex

/-- The character is the hexadecimal digit of value `n`, in either case. -/
def Digit (c : Char) (n : Nat) : Prop :=
  "0123456789abcdef".toList[n]? = some c ∨ "0123456789ABCDEF".toList[n]? = some c

/-- The text spells the bytes by pairs of digits, high half first. -/
inductive Spells : List Char → List UInt8 → Prop
  | nil : Spells [] []
  | cons {high low : Char} {h l : Nat} {text : List Char} {bs : List UInt8}
      (hhigh : Digit high h) (hlow : Digit low l) (hrest : Spells text bs) :
      Spells (high :: low :: text) (UInt8.ofNat (16 * h + l) :: bs)

/-! ## Digits -/

/-- There are sixteen digits. -/
lemma Digit.lt {c : Char} {n : Nat} (h : Digit c n) : n < 16 := by
  rcases h with h | h
  · exact (List.getElem?_eq_some_iff.1 h).1
  · exact (List.getElem?_eq_some_iff.1 h).1

/-- **A digit is read as its place among the digits.** -/
theorem value?_eq_some_iff {c : Char} {n : Nat} : value? c = some n ↔ Digit c n := by
  constructor
  · intro h
    have hchar : ∀ k, c.toNat = k → c = Char.ofNat k := by
      rintro k rfl
      exact (Char.ofNat_toNat c).symm
    have hdigit : ∀ k < 10, "0123456789abcdef".toList[k]? = some (Char.ofNat (k + 48)) := by decide
    have hlower : ∀ k < 6, "0123456789abcdef".toList[k + 10]? = some (Char.ofNat (k + 97)) := by
      decide
    have hupper : ∀ k < 6, "0123456789ABCDEF".toList[k + 10]? = some (Char.ofNat (k + 65)) := by
      decide
    unfold value? at h
    split_ifs at h with hd hl hu
    · obtain rfl := Option.some.inj h
      have hlow : 48 ≤ c.toNat := hd.1
      have hhigh : c.toNat ≤ 57 := hd.2
      left
      rw [hdigit _ (by omega), ← hchar _ (by omega)]
    · obtain rfl := Option.some.inj h
      have hlow : 97 ≤ c.toNat := hl.1
      have hhigh : c.toNat ≤ 102 := hl.2
      left
      rw [show c.toNat - 87 = c.toNat - 97 + 10 by omega, hlower _ (by omega),
        ← hchar _ (by omega)]
    · obtain rfl := Option.some.inj h
      have hlow : 65 ≤ c.toNat := hu.1
      have hhigh : c.toNat ≤ 70 := hu.2
      right
      rw [show c.toNat - 55 = c.toNat - 65 + 10 by omega, hupper _ (by omega),
        ← hchar _ (by omega)]
  · intro h
    have hlower : ∀ k < 16, ("0123456789abcdef".toList[k]?).bind value? = some k := by decide
    have hupper : ∀ k < 16, ("0123456789ABCDEF".toList[k]?).bind value? = some k := by decide
    rcases h with hc | hc
    · have hvalue := hlower n (Digit.lt (.inl hc))
      rwa [hc] at hvalue
    · have hvalue := hupper n (Digit.lt (.inr hc))
      rwa [hc] at hvalue

/-! ## Bytes -/

/-- **Pairs of digits are read as the bytes that they spell**, and nothing else is read. -/
theorem pairs?_eq_some_iff {text : List Char} {bs : List UInt8} :
    pairs? text = some bs ↔ Spells text bs := by
  constructor
  · intro h
    fun_induction pairs? text generalizing bs with
    | case1 =>
      obtain rfl := Option.some.inj h
      exact .nil
    | case2 => simp at h
    | case3 high low rest ih =>
      obtain ⟨x, hx, h⟩ := Option.bind_eq_some_iff.1 h
      obtain ⟨y, hy, h⟩ := Option.bind_eq_some_iff.1 h
      obtain ⟨more, hmore, h⟩ := Option.bind_eq_some_iff.1 h
      obtain rfl := Option.some.inj h
      exact .cons (value?_eq_some_iff.1 hx) (value?_eq_some_iff.1 hy) (ih hmore)
  · intro h
    induction h with
    | nil => rfl
    | cons hhigh hlow _ ih =>
      rw [pairs?, value?_eq_some_iff.2 hhigh, value?_eq_some_iff.2 hlow, ih]
      rfl

/-- **Every byte string can be spelled.** -/
theorem exists_spells (bs : List UInt8) : ∃ text, Spells text bs := by
  have hdigit : ∀ n < 16, "0123456789abcdef".toList[n]? = some (Nat.digitChar n) := by decide
  induction bs with
  | nil => exact ⟨[], .nil⟩
  | cons b bs ih =>
    obtain ⟨text, htext⟩ := ih
    have hlt := b.toNat_lt
    have hspells := Spells.cons (.inl (hdigit (b.toNat / 16) (by omega)))
      (.inl (hdigit (b.toNat % 16) (by omega))) htext
    rw [Nat.div_add_mod, UInt8.ofNat_toNat] at hspells
    exact ⟨_, hspells⟩

end CoverProbe.Hex
