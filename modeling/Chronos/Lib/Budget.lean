import Mathlib.Algebra.Order.Ring.Pow
import Mathlib.Tactic.FieldSimp
import Mathlib.Tactic.GCongr
import Mathlib.Tactic.Linarith
import Chronos.Lib.Rounding

/-!
# Bounds that widen with each rounding

What is computed from numbers between positive bounds is between the bounds that the same
computation gives, up to one relative unit for each rounding. A divisor counts twice.
-/

namespace Chronos.Lib

/-- The largest relative error of one rounding. -/
abbrev roundoff : ℚ := 2 ^ (-53 : ℤ)

/-- Between the bounds, after `k` roundings. -/
structure Within (k : Nat) (lo hi x : ℚ) : Prop where
  pos : 0 < lo
  lower : lo * (1 - roundoff) ^ k ≤ x
  upper : x ≤ hi * (1 + roundoff) ^ k

/-! ## Powers of the error -/

theorem one_sub_le_pow (k : Nat) : 1 - k * roundoff ≤ (1 - roundoff) ^ k := by
  have h := one_add_mul_le_pow (a := -roundoff) (by norm_num) k
  calc 1 - k * roundoff = 1 + k * -roundoff := by ring
    _ ≤ (1 + -roundoff) ^ k := h
    _ = (1 - roundoff) ^ k := by ring

theorem pow_pos_roundoff (k : Nat) : 0 < (1 - roundoff) ^ k := pow_pos (by norm_num) k

/-- The two powers are inverse to each other but for a second power. -/
theorem pow_mul_pow_le_one (k : Nat) : (1 - roundoff) ^ k * (1 + roundoff) ^ k ≤ 1 := by
  rw [← mul_pow]
  exact pow_le_one₀ (by norm_num) (by norm_num)

theorem one_le_pow_mul_pow (k : Nat) :
    1 ≤ (1 - roundoff) ^ k * (1 + roundoff) ^ (2 * k) := by
  rw [pow_mul, ← mul_pow]
  exact one_le_pow₀ (by norm_num)

section

variable {k j : Nat} (hk : k ≤ 1000)

include hk

theorem le_pow_roundoff : 1 - 2 ^ (-43 : ℤ) ≤ (1 - roundoff) ^ k := by
  have hcast : (k : ℚ) ≤ 1000 := by exact_mod_cast hk
  have hmul : (k : ℚ) * roundoff ≤ 1000 * roundoff :=
    mul_le_mul_of_nonneg_right hcast (by norm_num)
  have hnum : 1000 * roundoff ≤ 2 ^ (-43 : ℤ) := by norm_num
  linarith [one_sub_le_pow k]

theorem pow_roundoff_le : (1 + roundoff) ^ k ≤ 1 + 2 ^ (-42 : ℤ) := by
  have hlow := le_pow_roundoff hk
  have hone := pow_mul_pow_le_one k
  have hpos : 0 ≤ (1 + roundoff) ^ k := pow_nonneg (by norm_num) k
  have hmul : (1 - 2 ^ (-43 : ℤ)) * (1 + roundoff) ^ k ≤ 1 :=
    (mul_le_mul_of_nonneg_right hlow hpos).trans hone
  have hnum : (1 : ℚ) ≤ (1 - 2 ^ (-43 : ℤ)) * (1 + 2 ^ (-42 : ℤ)) := by norm_num
  exact le_of_mul_le_mul_left (hmul.trans hnum) (by norm_num)

end

namespace Within

variable {k j : Nat} {lo hi x lo' hi' y : ℚ}

theorem of_le (hpos : 0 < lo) (hlower : lo ≤ x) (hupper : x ≤ hi) : Within 0 lo hi x :=
  ⟨hpos, by rwa [pow_zero, mul_one], by rwa [pow_zero, mul_one]⟩

theorem exact (hpos : 0 < x) : Within 0 x x x := of_le hpos le_rfl le_rfl

theorem pos_value (h : Within k lo hi x) : 0 < x :=
  (mul_pos h.pos (pow_pos_roundoff k)).trans_le h.lower

theorem pos_hi (h : Within k lo hi x) : 0 < hi :=
  pos_of_mul_pos_left (h.pos_value.trans_le h.upper) (pow_nonneg (by norm_num) k)

theorem mono (h : Within k lo hi x) (hk : k ≤ j) : Within j lo hi x where
  pos := h.pos
  lower := (mul_le_mul_of_nonneg_left
    (pow_le_pow_of_le_one (by norm_num) (by norm_num) hk) h.pos.le).trans h.lower
  upper := h.upper.trans
    (mul_le_mul_of_nonneg_left (pow_le_pow_right₀ (by norm_num) hk) h.pos_hi.le)

theorem add (h : Within k lo hi x) (h' : Within k lo' hi' y) :
    Within k (lo + lo') (hi + hi') (x + y) where
  pos := add_pos h.pos h'.pos
  lower := by
    rw [add_mul]
    exact add_le_add h.lower h'.lower
  upper := by
    rw [add_mul]
    exact add_le_add h.upper h'.upper

theorem mul (h : Within k lo hi x) (h' : Within j lo' hi' y) :
    Within (k + j) (lo * lo') (hi * hi') (x * y) where
  pos := mul_pos h.pos h'.pos
  lower := by
    rw [pow_add, mul_mul_mul_comm]
    exact mul_le_mul h.lower h'.lower (mul_pos h'.pos (pow_pos_roundoff j)).le h.pos_value.le
  upper := by
    rw [pow_add, mul_mul_mul_comm]
    exact mul_le_mul h.upper h'.upper h'.pos_value.le
      (mul_nonneg h.pos_hi.le (pow_nonneg (by norm_num) k))

/-- The inverse of a rounded divisor costs twice its roundings above. -/
theorem inv (h : Within k lo hi x) : Within (2 * k) (1 / hi) (1 / lo) (1 / x) where
  pos := one_div_pos.mpr h.pos_hi
  lower := by
    rw [div_mul_eq_mul_div, one_mul, div_le_div_iff₀ h.pos_hi h.pos_value, one_mul]
    have hpow : (1 - roundoff) ^ (2 * k) ≤ (1 - roundoff) ^ k :=
      pow_le_pow_of_le_one (by norm_num) (by norm_num) (by omega)
    calc (1 - roundoff) ^ (2 * k) * x
        ≤ (1 - roundoff) ^ k * (hi * (1 + roundoff) ^ k) :=
          mul_le_mul hpow h.upper h.pos_value.le (pow_pos_roundoff k).le
      _ = hi * ((1 - roundoff) ^ k * (1 + roundoff) ^ k) := by ring
      _ ≤ hi := mul_le_of_le_one_right h.pos_hi.le (pow_mul_pow_le_one k)
  upper := by
    rw [div_mul_eq_mul_div, one_mul, div_le_div_iff₀ h.pos_value h.pos, one_mul]
    calc lo ≤ lo * ((1 - roundoff) ^ k * (1 + roundoff) ^ (2 * k)) :=
          le_mul_of_one_le_right h.pos.le (one_le_pow_mul_pow k)
      _ = (1 + roundoff) ^ (2 * k) * (lo * (1 - roundoff) ^ k) := by ring
      _ ≤ (1 + roundoff) ^ (2 * k) * x :=
        mul_le_mul_of_nonneg_left h.lower (pow_nonneg (by norm_num) _)

theorem div (h : Within k lo hi x) (h' : Within j lo' hi' y) :
    Within (k + 2 * j) (lo / hi') (hi / lo') (x / y) := by
  simpa only [mul_one_div] using h.mul h'.inv

/-- **One more rounding**, far above the subnormal numbers. -/
theorem fl (h : Within k lo hi x) (hk : k ≤ 1000) (hlo : (2 : ℚ) ^ (-1000 : ℤ) ≤ lo) :
    Within (k + 1) lo hi (fl x) := by
  have hhalf : (2 : ℚ) ^ (-1001 : ℤ) ≤ x := by
    calc (2 : ℚ) ^ (-1001 : ℤ) = 2 ^ (-1000 : ℤ) * (1 / 2) := by
          rw [show (-1001 : ℤ) = -1000 - 1 by norm_num, zpow_sub_one₀ (by norm_num)]
          norm_num
      _ ≤ lo * (1 - roundoff) ^ k := by
        refine mul_le_mul hlo (le_trans ?_ (le_pow_roundoff hk)) (by norm_num) h.pos.le
        norm_num
      _ ≤ x := h.lower
  have hnormal := normal_of_le (by norm_num) hhalf
  constructor
  · exact h.pos
  · rw [pow_succ, ← mul_assoc]
    exact (mul_le_mul_of_nonneg_right h.lower (by norm_num)).trans (mul_le_fl hnormal)
  · rw [pow_succ, ← mul_assoc]
    exact (fl_le_mul hnormal).trans (mul_le_mul_of_nonneg_right h.upper (by norm_num))

theorem le_value (h : Within k lo hi x) (hk : k ≤ 1000) : lo * (1 - 2 ^ (-43 : ℤ)) ≤ x :=
  (mul_le_mul_of_nonneg_left (le_pow_roundoff hk) h.pos.le).trans h.lower

theorem value_le (h : Within k lo hi x) (hk : k ≤ 1000) : x ≤ hi * (1 + 2 ^ (-42 : ℤ)) :=
  h.upper.trans (mul_le_mul_of_nonneg_left (pow_roundoff_le hk) h.pos_hi.le)

end Within

end Chronos.Lib
