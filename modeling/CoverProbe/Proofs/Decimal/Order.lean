import Mathlib.Algebra.Group.Nat.Defs
import Mathlib.Order.Monotone.Basic
import Mathlib.Tactic.Lemma
import Mathlib.Tactic.SplitIfs
import CoverProbe.Decimal.Binary64

set_option relaxedAutoImplicit false
set_option autoImplicit false

/-!
# The order of binary64 values

Numbers are compared by their ranks, which are read off their bits. Ranks put finite numbers in the
order of their values: a number is a multiple of the least positive one, and of two numbers the one
of the greater rank is the greater multiple.

## Main definitions

* `CoverProbe.Binary64.units` — the value of a finite number, as a multiple of the least positive
  one.

## Main results

* `CoverProbe.Binary64.le_iff_units_le` — finite numbers are compared by their values.
-/

namespace CoverProbe.Binary64

variable {x y z : Binary64}

/-! ## Comparisons -/

lemma le_refl (h : x.isNaN = false) : x ≤ x :=
  ⟨h, h, Int.le_refl _⟩

lemma le_trans (hxy : x ≤ y) (hyz : y ≤ z) : x ≤ z :=
  ⟨hxy.1, hyz.2.1, Int.le_trans hxy.2.2 hyz.2.2⟩

lemma le_of_lt (h : x < y) : x ≤ y :=
  ⟨h.1, h.2.1, Int.le_of_lt h.2.2⟩

lemma not_le_of_lt (h : x < y) : ¬ y ≤ x :=
  fun hle => Int.not_le.2 h.2.2 hle.2.2

/-- Of two numbers one is not greater than the other. -/
lemma lt_of_not_le (hx : x.isNaN = false) (hy : y.isNaN = false) (h : ¬ x ≤ y) : y < x :=
  ⟨hy, hx, Int.not_le.1 fun hle => h ⟨hx, hy, hle⟩⟩

/-- Of two numbers one is less than the other, or they do not differ in order. -/
lemma le_of_not_lt (hx : x.isNaN = false) (hy : y.isNaN = false) (h : ¬ x < y) : y ≤ x :=
  ⟨hy, hx, Int.not_lt.1 fun hlt => h ⟨hx, hy, hlt⟩⟩

/-- Only one number stands where one does. -/
lemma eq_one (hle : x ≤ one) (hge : one ≤ x) : x = one := by
  have hrank : x.rank = one.rank := Int.le_antisymm hle.2.2 hge.2.2
  have hone : one.rank = 4607182418800017408 := rfl
  have hpositive : x.negative = false := by
    by_contra hneg
    rw [Bool.not_eq_false] at hneg
    have hbits : 9223372036854775808 ≤ x.bits.toNat := of_decide_eq_true hneg
    rw [rank, if_pos hneg, hone] at hrank
    omega
  rw [rank, hpositive, if_neg (by decide), hone] at hrank
  have hbits : x.bits = 4607182418800017408 := UInt64.toNat_inj.1 (Int.ofNat_inj.1 hrank)
  cases x
  exact congrArg mk hbits

/-! ## Values -/

/-- How often the least positive number goes into a finite number. -/
def units (x : Binary64) : Int :=
  let magnitude : Nat := x.significand * 2 ^ (x.exponent + 1074).toNat
  if x.negative then -magnitude else magnitude

/-- The bits without the sign. -/
def unsigned (x : Binary64) : Nat :=
  x.exponentField * 4503599627370496 + x.fraction

/-- A rank is the bits without the sign, counted to the side of the sign. -/
lemma rank_eq (x : Binary64) :
    x.rank = if x.negative then -(x.unsigned : Int) else x.unsigned := by
  have hlt := x.bits.toNat_lt
  rw [rank, unsigned, exponentField, fraction, negative]
  split_ifs with hneg
  · rw [decide_eq_true_eq] at hneg
    omega
  · rw [decide_eq_true_eq] at hneg
    omega

/-- The magnitude that bits without the sign stand for. -/
def magnitude (n : Nat) : Nat :=
  if n / 4503599627370496 = 0 then n
  else (4503599627370496 + n % 4503599627370496) * 2 ^ (n / 4503599627370496 - 1)

/-- The value of a finite number is the magnitude with the sign. -/
lemma units_eq (x : Binary64) :
    x.units = if x.negative then -(magnitude x.unsigned : Int) else magnitude x.unsigned := by
  have hfraction : x.fraction < 4503599627370496 := Nat.mod_lt _ (by decide)
  have hfield : x.unsigned / 4503599627370496 = x.exponentField := by
    rw [unsigned]
    omega
  have hrest : x.unsigned % 4503599627370496 = x.fraction := by
    rw [unsigned]
    omega
  have hmagnitude : x.significand * 2 ^ (x.exponent + 1074).toNat = magnitude x.unsigned := by
    rw [magnitude, hfield, hrest, significand, exponent]
    split_ifs with hzero
    · rw [unsigned, hzero]
      simp
    · congr 2
      omega
  rw [units, hmagnitude]

/-- The exponent bounds the magnitude from above. -/
lemma magnitude_lt (n : Nat) :
    magnitude n < 4503599627370496 * 2 ^ (n / 4503599627370496) := by
  rw [magnitude]
  split_ifs with hzero
  · rw [hzero]
    omega
  · have hsucc := Nat.sub_add_cancel (Nat.pos_of_ne_zero hzero)
    generalize n / 4503599627370496 - 1 = k at hsucc ⊢
    rw [← hsucc, Nat.pow_succ', ← Nat.mul_assoc]
    exact Nat.mul_lt_mul_of_pos_right (by omega) (Nat.two_pow_pos _)

/-- **Greater bits stand for a greater magnitude**: at one exponent the fractions tell, and at a
greater exponent all numbers are greater. -/
lemma strictMono_magnitude : StrictMono magnitude := by
  intro m n hmn
  have hle : m / 4503599627370496 ≤ n / 4503599627370496 := Nat.div_le_div_right (Nat.le_of_lt hmn)
  rcases Nat.lt_or_eq_of_le hle with hlt | heq
  · calc magnitude m
        < 4503599627370496 * 2 ^ (m / 4503599627370496) := magnitude_lt m
      _ ≤ 4503599627370496 * 2 ^ (n / 4503599627370496 - 1) :=
          Nat.mul_le_mul_left _ (Nat.pow_le_pow_right (by decide) (by omega))
      _ ≤ magnitude n := by
          rw [magnitude, if_neg (by omega)]
          exact Nat.mul_le_mul_right _ (Nat.le_add_right _ _)
  · rw [magnitude, magnitude, heq]
    split_ifs
    · exact hmn
    · exact Nat.mul_lt_mul_of_pos_right (by omega) (Nat.two_pow_pos _)

/-- **Finite numbers are compared by their values.** -/
theorem le_iff_units_le (hx : x.isFinite = true) (hy : y.isFinite = true) :
    x ≤ y ↔ x.units ≤ y.units := by
  have hnumber : ∀ z : Binary64, z.isFinite = true → z.isNaN = false := by
    intro z hz
    rw [isNaN, decide_eq_false (of_decide_eq_true hz), Bool.false_and]
  have hranks : x ≤ y ↔ x.rank ≤ y.rank :=
    ⟨fun h => h.2.2, fun h => ⟨hnumber x hx, hnumber y hy, h⟩⟩
  have hxy := strictMono_magnitude.le_iff_le (a := x.unsigned) (b := y.unsigned)
  have hyx := strictMono_magnitude.le_iff_le (a := y.unsigned) (b := x.unsigned)
  have hxz := strictMono_magnitude.le_iff_le (a := x.unsigned) (b := 0)
  have hyz := strictMono_magnitude.le_iff_le (a := y.unsigned) (b := 0)
  have hzero : magnitude 0 = 0 := rfl
  rw [hranks, rank_eq, rank_eq, units_eq, units_eq]
  -- Magnitudes of different signs are equal only if both are zero.
  split_ifs <;> omega

end CoverProbe.Binary64
