import Mathlib.Data.Nat.Bitwise
import Mathlib.Data.Nat.MaxPowDiv
import Mathlib.Data.Nat.ModEq
import Mathlib.Data.Nat.Prime.Basic
import Mathlib.Tactic.Lemma
import Mathlib.Tactic.Ring
import CoverProbe.Probe.Token

set_option relaxedAutoImplicit false
set_option autoImplicit false

/-!
# Collisions of tokens

When two sites get the same token of the default scheme. The hash of a site is a product with an odd
factor, the base line and the offset. The odd part of the line cancels in a congruence modulo a
power of two; its part two to the power `v` shortens the modulus by `v` bits. The contribution of
the rank is a product with an odd factor in all bits but the highest, so that ranks are told apart
modulo `2 ^ 31`.

## Main definitions

* `CoverProbe.Token.weight` — a word as a factor of the hash.
* `CoverProbe.Token.lostBits` — the number of bits by which a base line shortens hashes.
* `CoverProbe.Token.tellingBits` — the number of bits of a token that are hashed.

## Main results

* `CoverProbe.Token.hashed_eq_iff_offsets` — in one unit offsets decide, modulo a power of two.
* `CoverProbe.Token.hashed_eq_iff_ranks` — at one offset ranks decide, modulo `2 ^ 31`.
* `CoverProbe.Token.eq_of_weight_modEq` — below the modulus no two offsets share a token.
-/

namespace CoverProbe

namespace Token

/-! ## Weights -/

/-- What a word weighs as a factor: its number, and the greatest 32-bit number for zero. -/
def weight (w : UInt32) : Nat :=
  if w.toNat = 0 then 4294967295 else w.toNat

/-- The number of bits by which a base line shortens hashes: the trailing zeros of its weight, or
the greatest `v` for which `2 ^ v` divides it. -/
def lostBits (firstLine : UInt32) : Nat :=
  padicValNat 2 (weight firstLine)

/-- Words are multiplied by their weights. -/
lemma toNat_nonZero (w : UInt32) : (nonZero w).toNat = weight w := by
  have hzero : w = 0 ↔ w.toNat = 0 := UInt32.toNat_inj.symm
  rw [nonZero, weight]
  split_ifs with hw hnum hnum
  · rfl
  · exact absurd (hzero.1 hw) hnum
  · exact absurd (hzero.2 hnum) hw
  · rfl

/-- No weight is zero. -/
lemma weight_ne_zero (w : UInt32) : weight w ≠ 0 := by
  rw [weight]
  split_ifs with h
  · decide
  · exact h

/-- Weights are 32-bit numbers. -/
lemma weight_lt (w : UInt32) : weight w < 2 ^ 32 :=
  toNat_nonZero w ▸ UInt32.toNat_lt _

/-- A weight is a power of two and an odd number. -/
lemma exists_odd_weight (w : UInt32) : ∃ q, Odd q ∧ weight w = 2 ^ lostBits w * q := by
  have hodd := Nat.not_dvd_divMaxPow (p := 2) Nat.one_lt_two (weight_ne_zero w)
  exact ⟨(weight w).divMaxPow 2, Nat.odd_iff.2 (Nat.two_dvd_ne_zero.1 hodd),
    (Nat.pow_padicValNat_mul_divMaxPow 2 (weight w)).symm⟩

/-- At least one bit of a hash is left. -/
lemma lostBits_lt (firstLine : UInt32) : lostBits firstLine < 32 := by
  have hle : 2 ^ lostBits firstLine ≤ weight firstLine :=
    Nat.le_of_dvd (Nat.pos_of_ne_zero (weight_ne_zero firstLine)) pow_padicValNat_dvd
  exact (Nat.pow_lt_pow_iff_right Nat.one_lt_two).1 (hle.trans_lt (weight_lt firstLine))

/-! ## Products -/

/-- An odd factor cancels modulo a power of two. -/
lemma odd_mul_modEq_iff {q : Nat} (h : Odd q) {m a b : Nat} :
    q * a ≡ q * b [MOD 2 ^ m] ↔ a ≡ b [MOD 2 ^ m] := by
  refine ⟨Nat.ModEq.cancel_left_of_coprime ?_, Nat.ModEq.mul_left q⟩
  exact Nat.Coprime.pow_left m (Nat.coprime_two_left.2 h)

/-- **Hashes of one line are congruent if their offsets are**, modulo a power of two that is shorter
by what the line loses. -/
theorem siteHash_modEq_iff {m : Nat} (hm : m ≤ 32) {firstLine a b : UInt32}
    (hline : lostBits firstLine ≤ m) :
    (siteHash firstLine a).toNat ≡ (siteHash firstLine b).toNat [MOD 2 ^ m] ↔
      weight a ≡ weight b [MOD 2 ^ (m - lostBits firstLine)] := by
  obtain ⟨q, hq, hpart⟩ := exists_odd_weight firstLine
  have hfactor : Odd factor.toNat := by decide
  have hproduct : ∀ offset, (siteHash firstLine offset).toNat ≡
      2 ^ lostBits firstLine * (factor.toNat * q * weight offset) [MOD 2 ^ m] := by
    intro offset
    have hword : (siteHash firstLine offset).toNat ≡
        factor.toNat * weight firstLine * weight offset [MOD 2 ^ 32] := by
      rw [siteHash, UInt32.toNat_mul, UInt32.toNat_mul, toNat_nonZero, toNat_nonZero]
      exact (Nat.mod_modEq _ _).trans ((Nat.mod_modEq _ _).mul_right _)
    have hapart : factor.toNat * weight firstLine * weight offset =
        2 ^ lostBits firstLine * (factor.toNat * q * weight offset) := by
      rw [hpart]
      ring
    rw [← hapart]
    exact hword.of_dvd (Nat.pow_dvd_pow 2 hm)
  have hmodulus : 2 ^ m = 2 ^ lostBits firstLine * 2 ^ (m - lostBits firstLine) := by
    rw [← pow_add, Nat.add_sub_cancel' hline]
  calc (siteHash firstLine a).toNat ≡ (siteHash firstLine b).toNat [MOD 2 ^ m]
      ↔ 2 ^ lostBits firstLine * (factor.toNat * q * weight a) ≡
          2 ^ lostBits firstLine * (factor.toNat * q * weight b) [MOD 2 ^ m] :=
        ⟨fun h => (hproduct a).symm.trans (h.trans (hproduct b)),
          fun h => (hproduct a).trans (h.trans (hproduct b).symm)⟩
    _ ↔ factor.toNat * q * weight a ≡
          factor.toNat * q * weight b [MOD 2 ^ (m - lostBits firstLine)] := by
        rw [hmodulus, Nat.ModEq.mul_left_cancel_iff' (Nat.two_pow_pos _).ne']
    _ ↔ weight a ≡ weight b [MOD 2 ^ (m - lostBits firstLine)] :=
        odd_mul_modEq_iff (hfactor.mul hq)

/-! ## The highest bit -/

/-- The number of bits of a token that tell its site from others: all, or all but the mark. -/
def tellingBits (mark : Bool) : Nat :=
  if mark then 31 else 32

/-- The bits of a mask, set and then cleared, are clear; cleared and then set, they are set; and the
mask keeps all of those set. -/
lemma set_clear (w mask : UInt32) : (w ||| mask) &&& ~~~mask = w &&& ~~~mask ∧
    (w &&& ~~~mask) ||| mask = w ||| mask ∧ (w ||| mask) &&& mask = mask := by
  refine ⟨?_, ?_, ?_⟩
  all_goals
    apply UInt32.eq_of_toBitVec_eq
    ext k hk
    by_cases hbit : mask.toBitVec[k] = true <;> simp [hbit]

/-- A word with its highest bit cleared, as a number. -/
lemma toNat_clear (w : UInt32) : (w &&& ~~~topLevelBit).toNat = w.toNat % 2 ^ 31 := by
  have hmask : (~~~topLevelBit).toNat = 2 ^ 31 - 1 := by decide
  rw [UInt32.toNat_and, hmask, Nat.and_two_pow_sub_one_eq_mod]

/-- Words agree in all bits but the highest if they are congruent. -/
lemma clear_eq_iff {h h' : UInt32} :
    h &&& ~~~topLevelBit = h' &&& ~~~topLevelBit ↔ h.toNat ≡ h'.toNat [MOD 2 ^ 31] := by
  rw [← UInt32.toNat_inj, toNat_clear, toNat_clear]
  rfl

/-- Setting the highest bit of words tells as much of them as clearing it. -/
lemma set_eq_iff_clear_eq {h h' : UInt32} :
    h ||| topLevelBit = h' ||| topLevelBit ↔
      h &&& ~~~topLevelBit = h' &&& ~~~topLevelBit := by
  obtain ⟨hcleared, hset, -⟩ := set_clear h topLevelBit
  obtain ⟨hcleared', hset', -⟩ := set_clear h' topLevelBit
  constructor
  · intro heq
    rw [← hcleared, heq, hcleared']
  · intro heq
    rw [← hset, heq, hset']

/-- The highest bit of a token is the mark. -/
lemma hashed_and_topLevelBit (site : ProbeSite) :
    hashed true site &&& topLevelBit = if site.topLevel then topLevelBit else 0 := by
  rw [hashed]
  cases site.topLevel with
  | false =>
    show (_ &&& ~~~topLevelBit) &&& topLevelBit = 0
    rw [UInt32.and_assoc]
    simp
  | true => exact (set_clear _ topLevelBit).2.2

/-- Marked tokens are told from others. -/
lemma hashed_ne_of_topLevel_ne {a b : ProbeSite} (h : a.topLevel ≠ b.topLevel) :
    hashed true a ≠ hashed true b := by
  intro heq
  have hmarks := congrArg (· &&& topLevelBit) heq
  simp only [hashed_and_topLevelBit] at hmarks
  cases ha : a.topLevel <;> cases hb : b.topLevel <;> simp_all [topLevelBit]

/-- Tokens are the same if what is hashed for them agrees in the bits that tell. -/
lemma hashed_eq_iff_modEq {mark : Bool} {a b : ProbeSite}
    (htop : mark = true → a.topLevel = b.topLevel) : hashed mark a = hashed mark b ↔
      (siteHash a.firstLine a.offset ^^^ unitSalt a.unitIndex).toNat ≡
        (siteHash b.firstLine b.offset ^^^ unitSalt b.unitIndex).toNat
          [MOD 2 ^ tellingBits mark] := by
  cases mark with
  | false =>
    show _ ^^^ _ = _ ^^^ _ ↔ _ ≡ _ [MOD 2 ^ 32]
    rw [← UInt32.toNat_inj]
    exact ⟨fun h => congrArg (· % 2 ^ 32) h,
      fun h => Nat.ModEq.eq_of_lt_of_lt h (UInt32.toNat_lt _) (UInt32.toNat_lt _)⟩
  | true =>
    show _ ↔ _ ≡ _ [MOD 2 ^ 31]
    rw [← clear_eq_iff, hashed, hashed, htop rfl]
    cases b.topLevel with
    | false => rfl
    | true => exact set_eq_iff_clear_eq

/-! ## The two laws -/

/-- A common mask cancels modulo a power of two. -/
lemma xor_modEq_iff {m : Nat} {a b mask : UInt32} :
    (a ^^^ mask).toNat ≡ (b ^^^ mask).toNat [MOD 2 ^ m] ↔ a.toNat ≡ b.toNat [MOD 2 ^ m] := by
  rw [Nat.ModEq, UInt32.toNat_xor, UInt32.toNat_xor, Nat.xor_mod_two_pow, Nat.xor_mod_two_pow,
    Nat.xor_left_inj]
  rfl

/-- What a rank contributes, as a number. -/
lemma toNat_unitSalt (i : UInt32) : (unitSalt i).toNat = factor.toNat * i.toNat % 2 ^ 31 := by
  rw [unitSalt, toNat_clear, UInt32.toNat_mul,
    Nat.mod_mod_of_dvd _ (Nat.pow_dvd_pow 2 (by decide)), Nat.mul_comm]

/-- What ranks contribute is the same if they are congruent. -/
lemma unitSalt_modEq_iff {i j : UInt32} {m : Nat} (hm : 31 ≤ m) :
    (unitSalt i).toNat ≡ (unitSalt j).toNat [MOD 2 ^ m] ↔ i.toNat ≡ j.toNat [MOD 2 ^ 31] := by
  have hlt : ∀ k, (unitSalt k).toNat < 2 ^ m := fun k => by
    rw [toNat_unitSalt]
    exact (Nat.mod_lt _ (Nat.two_pow_pos 31)).trans_le (Nat.pow_le_pow_right (by decide) hm)
  rw [Nat.ModEq, Nat.mod_eq_of_lt (hlt i), Nat.mod_eq_of_lt (hlt j), toNat_unitSalt,
    toNat_unitSalt]
  exact odd_mul_modEq_iff (by decide)

/-- **In one unit offsets decide.** -/
theorem hashed_eq_iff_offsets {mark : Bool} {a b : ProbeSite} (hline : a.firstLine = b.firstLine)
    (hindex : a.unitIndex = b.unitIndex) (htop : mark = true → a.topLevel = b.topLevel) :
    hashed mark a = hashed mark b ↔ weight a.offset ≡ weight b.offset
      [MOD 2 ^ (tellingBits mark - lostBits a.firstLine)] := by
  have hbits : tellingBits mark ≤ 32 ∧ 31 ≤ tellingBits mark := by cases mark <;> decide
  have hlost := lostBits_lt a.firstLine
  rw [hashed_eq_iff_modEq htop, ← hindex, ← hline, xor_modEq_iff]
  exact siteHash_modEq_iff hbits.1 (by omega)

/-- **At one offset ranks decide.** -/
theorem hashed_eq_iff_ranks {mark : Bool} {a b : ProbeSite} (hline : a.firstLine = b.firstLine)
    (hoffset : a.offset = b.offset) (htop : mark = true → a.topLevel = b.topLevel) :
    hashed mark a = hashed mark b ↔ a.unitIndex.toNat ≡ b.unitIndex.toNat [MOD 2 ^ 31] := by
  have hbits : 31 ≤ tellingBits mark := by cases mark <;> decide
  rw [hashed_eq_iff_modEq htop, ← hoffset, ← hline, UInt32.xor_comm,
    UInt32.xor_comm _ (unitSalt b.unitIndex), xor_modEq_iff]
  exact unitSalt_modEq_iff hbits

/-- The residue of the weight of an offset: its own, and the greatest for offset zero. -/
lemma weight_mod {m : Nat} (hm : m ≤ 32) {w : UInt32} (hw : w.toNat < 2 ^ m - 1) :
    weight w % 2 ^ m = if w = 0 then 2 ^ m - 1 else w.toNat := by
  rw [← toNat_nonZero, nonZero]
  split_ifs with hzero
  · show (2 ^ 32 - 1) % 2 ^ m = 2 ^ m - 1
    apply Nat.eq_of_testBit_eq
    intro i
    simp only [Nat.testBit_mod_two_pow, Nat.testBit_two_pow_sub_one]
    by_cases hi : i < m
    · simp [hi, hi.trans_le hm]
    · simp [hi]
  · exact Nat.mod_eq_of_lt (hw.trans_le (Nat.sub_le _ _))

/-- **Below the modulus no two offsets are congruent**, the greatest residue left out: that stands
for offset zero. -/
theorem eq_of_weight_modEq {m : Nat} (hm : m ≤ 32) {a b : UInt32} (ha : a.toNat < 2 ^ m - 1)
    (hb : b.toNat < 2 ^ m - 1)
    (h : weight a ≡ weight b [MOD 2 ^ m]) : a = b := by
  rw [Nat.ModEq, weight_mod hm ha, weight_mod hm hb] at h
  apply UInt32.toNat_inj.1
  split_ifs at h <;> subst_vars <;> omega

end Token

end CoverProbe
