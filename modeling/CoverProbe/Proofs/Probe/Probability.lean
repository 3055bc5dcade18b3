import CoverProbe.Probe.Sampler
import CoverProbe.Proofs.Decimal.Order

set_option relaxedAutoImplicit false
set_option autoImplicit false

/-!
# Probabilities that settings give

Settings may give any two numbers, or values that are no numbers, for the bounds of a density. The
bounds that are drawn between are these numbers in order, each brought into the unit interval. Both
are told here by cases, and the functions that compute them are proved to yield just these bounds.

## Main definitions

* `CoverProbe.Binary64.IsProbability` — a number of the unit interval.
* `CoverProbe.Sampling.Clamps` — a value, brought into the unit interval.
* `CoverProbe.Sampling.Bounds` — the bounds of a density.

## Main results

* `CoverProbe.Sampling.clamps_iff`, `CoverProbe.Sampling.bounds_iff` — what is computed.
* `CoverProbe.Sampling.Clamps.eq_one_iff` — which values stand for certainty.
* `CoverProbe.Sampling.Bounds.le` — the bounds of a density are probabilities in order.
-/

namespace CoverProbe

/-- The number lies in the unit interval. -/
def Binary64.IsProbability (p : Binary64) : Prop :=
  .zero false ≤ p ∧ p ≤ .one

namespace Sampling

open Binary64

variable {x y p q low high least most : Binary64}

/-! ## One value -/

/-- The value `x`, brought into the unit interval: what is no number or lies below zero becomes
zero, what lies above one becomes one, and what lies between them stays. -/
inductive Clamps (x : Binary64) : Binary64 → Prop
  | noNumber (h : x.isNaN = true) : Clamps x (.zero false)
  | below (h : x < .zero false) : Clamps x (.zero false)
  | above (h : .one < x) : Clamps x .one
  | within (h : x.IsProbability) : Clamps x x

lemma isProbability_zero : (Binary64.zero false).IsProbability :=
  ⟨by decide, by decide⟩

lemma isProbability_one : Binary64.one.IsProbability :=
  ⟨by decide, by decide⟩

/-- Values are brought into the unit interval as they should be. -/
lemma clamps_probability (x : Binary64) : Clamps x (probability x) := by
  rw [probability]
  split_ifs with hnan hbelow habove
  · exact .noNumber hnan
  · exact .below hbelow
  · exact .above habove
  · rw [Bool.not_eq_true] at hnan
    exact .within ⟨le_of_not_lt hnan isProbability_zero.1.1 hbelow,
      le_of_not_lt isProbability_one.1.2.1 hnan habove⟩

/-- **A value is brought into the unit interval in one way**, the one computed. -/
theorem clamps_iff : Clamps x p ↔ p = probability x := by
  refine ⟨fun h => ?_, fun h => h ▸ clamps_probability x⟩
  cases h with
  | noNumber h => rw [probability, if_pos h]
  | below h => rw [probability, if_neg (by simp [h.1]), if_pos h]
  | above h =>
    have hbelow : ¬ x < .zero false := fun hlt =>
      not_le_of_lt hlt (le_trans isProbability_one.1 (le_of_lt h))
    rw [probability, if_neg (by simp [h.2.1]), if_neg hbelow, if_pos h]
  | within h =>
    have hbelow : ¬ x < .zero false := fun hlt => not_le_of_lt hlt h.1
    have habove : ¬ .one < x := fun hlt => not_le_of_lt hlt h.2
    rw [probability, if_neg (by simp [h.1.2.1]), if_neg hbelow, if_neg habove]

/-- What is brought into the unit interval lies there. -/
lemma Clamps.isProbability (h : Clamps x p) : p.IsProbability := by
  cases h with
  | noNumber _ => exact isProbability_zero
  | below _ => exact isProbability_zero
  | above _ => exact isProbability_one
  | within h => exact h

/-- **Only one and what lies above it stand for certainty.** -/
theorem Clamps.eq_one_iff (h : Clamps x p) : p = .one ↔ .one ≤ x := by
  have hzero : ¬ Binary64.zero false = .one := by decide
  cases h with
  | noNumber h => exact iff_of_false hzero fun hle => by simp [hle.2.1] at h
  | below h => exact iff_of_false hzero fun hle => not_le_of_lt h (le_trans isProbability_one.1 hle)
  | above h => exact iff_of_true rfl (le_of_lt h)
  | within h => exact ⟨fun heq => heq ▸ isProbability_one.2, fun hle => eq_one h.2 hle⟩

/-- Values in order stay in order. -/
lemma Clamps.le (hx : Clamps x p) (hy : Clamps y q) (h : x ≤ y) : p ≤ q := by
  have hp := hx.isProbability
  have hq := hy.isProbability
  cases hx with
  | noNumber hnan => simp [h.1] at hnan
  | below _ => exact hq.1
  | above habove =>
    rw [hy.eq_one_iff.2 (le_trans (le_of_lt habove) h)]
    exact isProbability_one.2
  | within hwithin =>
    cases hy with
    | noNumber hnan => simp [h.2.1] at hnan
    | below hbelow => exact absurd (le_trans hwithin.1 h) (not_le_of_lt hbelow)
    | above _ => exact hp.2
    | within _ => exact h

/-! ## Two bounds -/

/-- The bounds `least` and `most` of the density that settings give by `low` and `high`: these two
in order, brought into the unit interval. One that is no number gives way to the other one. -/
inductive Bounds (low high least most : Binary64) : Prop
  | ordered (h : low ≤ high) (hleast : Clamps low least) (hmost : Clamps high most)
  | swapped (h : high < low) (hleast : Clamps high least) (hmost : Clamps low most)
  | lowMissing (h : low.isNaN = true) (hleast : Clamps high least) (hmost : Clamps high most)
  | highMissing (h : high.isNaN = true) (hleast : Clamps low least) (hmost : Clamps low most)

/-- **A density has two bounds**, the ones computed. -/
theorem bounds_iff :
    Bounds low high least most ↔
      least = probability (lesser low high) ∧ most = probability (greater low high) := by
  constructor
  · intro h
    cases h with
    | ordered h hleast hmost =>
      rw [clamps_iff] at hleast hmost
      simp [lesser, greater, h, h.1, h.2.1, hleast, hmost]
    | swapped h hleast hmost =>
      rw [clamps_iff] at hleast hmost
      simp [lesser, greater, not_le_of_lt h, h.1, h.2.1, hleast, hmost]
    | lowMissing h hleast hmost =>
      rw [clamps_iff] at hleast hmost
      simp [lesser, greater, h, hleast, hmost]
    | highMissing h hleast hmost =>
      rw [clamps_iff] at hleast hmost
      -- If neither is a number, both bounds are zero.
      by_cases hlow : low.isNaN = true
      · simp [lesser, greater, probability, h, hlow, hleast, hmost]
      · simp [lesser, greater, h, hlow, hleast, hmost]
  · rintro ⟨rfl, rfl⟩
    rw [lesser, greater]
    split_ifs with hlow hhigh hle
    · exact .lowMissing hlow (clamps_probability _) (clamps_probability _)
    · exact .highMissing hhigh (clamps_probability _) (clamps_probability _)
    · exact .ordered hle (clamps_probability _) (clamps_probability _)
    · rw [Bool.not_eq_true] at hlow hhigh
      exact .swapped (lt_of_not_le hlow hhigh hle) (clamps_probability _) (clamps_probability _)

/-- **The bounds of a density are probabilities in order.** -/
theorem Bounds.le (h : Bounds low high least most) :
    least.IsProbability ∧ most.IsProbability ∧ least ≤ most := by
  have hself : ∀ {x p q}, Clamps x p → Clamps x q → p ≤ q := by
    intro x p q hp hq
    rw [clamps_iff] at hp hq
    rw [hp, hq]
    exact le_refl (clamps_probability x).isProbability.1.2.1
  cases h with
  | ordered h hleast hmost => exact ⟨hleast.isProbability, hmost.isProbability, hleast.le hmost h⟩
  | swapped h hleast hmost =>
    exact ⟨hleast.isProbability, hmost.isProbability, hleast.le hmost (le_of_lt h)⟩
  | lowMissing h hleast hmost =>
    exact ⟨hleast.isProbability, hmost.isProbability, hself hleast hmost⟩
  | highMissing h hleast hmost =>
    exact ⟨hleast.isProbability, hmost.isProbability, hself hleast hmost⟩

end Sampling

end CoverProbe
