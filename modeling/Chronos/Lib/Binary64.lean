import Mathlib.Data.Int.Log
import Mathlib.Data.Rat.Floor
import Mathlib.Tactic.Linarith
import Mathlib.Tactic.FieldSimp
import Mathlib.Tactic.NormNum
import Mathlib.Tactic.Positivity
import Mathlib.Tactic.Ring

/-!
# Rounding to binary64

`fl x` is the binary64 number nearest to the rational `x`, ties to the even
significand, with 53 bits of significand and gradual underflow. Magnitudes that
would overflow are rounded as if the exponent were unbounded.
-/

namespace Chronos.Lib

/-- The nearest integer, ties to even. -/
def roundEven (x : ℚ) : Int :=
  if 2 * Int.fract x < 1 ∨ (2 * Int.fract x = 1 ∧ ⌊x⌋ % 2 = 0) then ⌊x⌋ else ⌊x⌋ + 1

/-- The exponent of the last place of the binary64 numbers around `x`. -/
def lastPlace (x : ℚ) : Int := max (Int.log 2 |x| - 52) (-1074)

def fl (x : ℚ) : ℚ := roundEven (x / 2 ^ lastPlace x) * 2 ^ lastPlace x

theorem abs_roundEven_sub_le (x : ℚ) : |roundEven x - x| ≤ 1 / 2 := by
  have hx : (⌊x⌋ : ℚ) + Int.fract x = x := Int.floor_add_fract x
  have h0 := Int.fract_nonneg x
  have h1 := Int.fract_lt_one x
  unfold roundEven
  split
  · next h =>
    have : 2 * Int.fract x ≤ 1 := h.elim le_of_lt fun h => h.1.le
    rw [abs_le]
    constructor <;> linarith
  · next h =>
    have : 1 ≤ 2 * Int.fract x := not_lt.mp fun h' => h (.inl h')
    rw [abs_le]
    push_cast
    constructor <;> linarith

theorem roundEven_pos {x : ℚ} (h : 1 / 2 < x) : 0 < roundEven x := by
  have herr := (abs_le.mp (abs_roundEven_sub_le x)).1
  have hpos : (0 : ℚ) < roundEven x := by linarith
  exact_mod_cast hpos

theorem roundEven_nonpos {x : ℚ} (h : x ≤ 1 / 2) : roundEven x ≤ 0 := by
  have hx := Int.floor_add_fract x
  have hfloor : ⌊x⌋ ≤ 0 := by
    have hlt : ⌊x⌋ < 1 := Int.floor_lt.mpr (by push_cast; linarith)
    omega
  unfold roundEven
  split
  · exact hfloor
  · next hup =>
    -- a half is a tie, and zero is even
    have hne : ⌊x⌋ ≠ 0 := by
      intro hzero
      rw [hzero, Int.cast_zero, zero_add] at hx
      rw [hzero, hx] at hup
      rcases lt_or_eq_of_le h with hlt | heq
      · exact hup (.inl (by linarith))
      · exact hup (.inr ⟨by linarith, rfl⟩)
    omega

@[simp] theorem roundEven_zero : roundEven 0 = 0 := by
  simp [roundEven]

@[simp] theorem fl_zero : fl 0 = 0 := by
  simp [fl]

@[simp] theorem roundEven_neg (x : ℚ) : roundEven (-x) = -roundEven x := by
  by_cases hx : Int.fract x = 0
  · have hx' : Int.fract (-x) = 0 := Int.fract_neg_eq_zero.mpr hx
    have hint : (⌊-x⌋ : ℚ) = -⌊x⌋ := by
      linarith [Int.floor_add_fract x, Int.floor_add_fract (-x)]
    have hfloor : ⌊-x⌋ = -⌊x⌋ := by exact_mod_cast hint
    simp [roundEven, hx, hx', hfloor]
  · have hx' : Int.fract (-x) = 1 - Int.fract x := Int.fract_neg hx
    have hint : (⌊-x⌋ : ℚ) = -⌊x⌋ - 1 := by
      linarith [Int.floor_add_fract x, Int.floor_add_fract (-x)]
    have hfloor : ⌊-x⌋ = -⌊x⌋ - 1 := by exact_mod_cast hint
    unfold roundEven
    rw [hx', hfloor]
    rcases lt_trichotomy (2 * Int.fract x) 1 with hlt | heq | hgt
    · rw [if_neg (by rintro (h | ⟨h, -⟩) <;> linarith), if_pos (.inl hlt)]
      omega
    · -- at a tie exactly one of the two neighbours is even
      have heq' : 2 * (1 - Int.fract x) = 1 := by linarith
      simp only [heq, heq', lt_irrefl, true_and, false_or]
      split <;> split <;> omega
    · rw [if_pos (.inl (by linarith)), if_neg (by rintro (h | ⟨h, -⟩) <;> linarith)]
      omega

@[simp] theorem fl_neg (x : ℚ) : fl (-x) = -fl x := by
  simp [fl, lastPlace, neg_div]

theorem abs_fl_sub_le (x : ℚ) : |fl x - x| ≤ 2 ^ (lastPlace x - 1) := by
  have hpos : (0 : ℚ) < 2 ^ lastPlace x := zpow_pos (by norm_num) _
  have heq : fl x - x = (roundEven (x / 2 ^ lastPlace x) - x / 2 ^ lastPlace x) *
      2 ^ lastPlace x := by
    unfold fl
    field_simp
  rw [heq, abs_mul, abs_of_pos hpos, zpow_sub_one₀ (by norm_num)]
  have := abs_roundEven_sub_le (x / 2 ^ lastPlace x)
  nlinarith

theorem two_zpow_log_le {x : ℚ} (hx : x ≠ 0) : (2 : ℚ) ^ Int.log 2 |x| ≤ |x| :=
  Int.zpow_log_le_self (by norm_num) (abs_pos.mpr hx)

/-- In the normal range one rounding moves a number by at most one part in `2 ^ 53`. -/
theorem abs_fl_sub_le_mul {x : ℚ} (h : (2 : ℚ) ^ (-1022 : ℤ) ≤ |x|) :
    |fl x - x| ≤ |x| * 2 ^ (-53 : ℤ) := by
  have hpos : (0 : ℚ) < |x| := lt_of_lt_of_le (zpow_pos (by norm_num) _) h
  have hlog : -1022 ≤ Int.log 2 |x| :=
    (Int.zpow_le_iff_le_log (by norm_num) hpos).mp h
  have hplace : lastPlace x = Int.log 2 |x| - 52 := max_eq_left (by omega)
  have hexp : lastPlace x - 1 = Int.log 2 |x| + -53 := by omega
  calc |fl x - x| ≤ 2 ^ (lastPlace x - 1) := abs_fl_sub_le x
    _ = 2 ^ Int.log 2 |x| * 2 ^ (-53 : ℤ) := by
      rw [hexp, zpow_add₀ (by norm_num)]
    _ ≤ |x| * 2 ^ (-53 : ℤ) :=
      mul_le_mul_of_nonneg_right (two_zpow_log_le (abs_pos.mp hpos)) (zpow_nonneg (by norm_num) _)

/-- One rounding of any number, also of a subnormal one. -/
theorem abs_fl_sub_le_add (x : ℚ) :
    |fl x - x| ≤ |x| * 2 ^ (-53 : ℤ) + 2 ^ (-1075 : ℤ) := by
  have hsmall : (0 : ℚ) < 2 ^ (-1075 : ℤ) := zpow_pos (by norm_num) _
  by_cases hx : x = 0
  · rw [hx, fl_zero]
    simp
  have hmul : (0 : ℚ) ≤ |x| * 2 ^ (-53 : ℤ) :=
    mul_nonneg (abs_nonneg x) (zpow_nonneg (by norm_num) _)
  rcases le_total (-1022) (Int.log 2 |x|) with hlog | hlog
  · have hnormal := (Int.zpow_le_iff_le_log (by norm_num) (abs_pos.mpr hx)).mpr hlog
    exact (abs_fl_sub_le_mul hnormal).trans (le_add_of_nonneg_right hsmall.le)
  · have hplace : lastPlace x - 1 = -1075 := by
      unfold lastPlace
      omega
    exact (hplace ▸ abs_fl_sub_le x).trans (le_add_of_nonneg_left hmul)

theorem fl_nonneg {x : ℚ} (hx : 0 ≤ x) : 0 ≤ fl x := by
  have hpos : (0 : ℚ) < 2 ^ lastPlace x := zpow_pos (by norm_num) _
  have hfloor : 0 ≤ ⌊x / 2 ^ lastPlace x⌋ := Int.floor_nonneg.mpr (div_nonneg hx hpos.le)
  have hround : 0 ≤ roundEven (x / 2 ^ lastPlace x) := by
    unfold roundEven
    split <;> omega
  exact mul_nonneg (by exact_mod_cast hround) hpos.le

theorem fl_nonpos {x : ℚ} (hx : x ≤ 0) : fl x ≤ 0 := by
  have hneg := fl_nonneg (neg_nonneg.mpr hx)
  rw [fl_neg] at hneg
  linarith

theorem fl_pos {x : ℚ} (hx : (2 : ℚ) ^ (-1022 : ℤ) ≤ x) : 0 < fl x := by
  have hpos : 0 < x := lt_of_lt_of_le (zpow_pos (by norm_num) _) hx
  have herr := abs_fl_sub_le_mul (x := x) (by rwa [abs_of_pos hpos])
  rw [abs_of_pos hpos] at herr
  have hlow := (abs_le.mp herr).1
  have hunit : (2 : ℚ) ^ (-53 : ℤ) < 1 := by norm_num
  nlinarith

/-! ## Relative error of a computation -/

/-- `y` is `x` after at most `k` roundings. -/
def Near (k : Nat) (x y : ℚ) : Prop :=
  ∃ d : ℚ, (1 - 2 ^ (-53 : ℤ)) ^ k ≤ d ∧ d ≤ (1 + 2 ^ (-53 : ℤ)) ^ k ∧ y = x * d

/-- Zero, or far above the subnormal numbers. -/
def Ordinary (x : ℚ) : Prop := x = 0 ∨ (2 : ℚ) ^ (-200 : ℤ) ≤ |x|

theorem Ordinary.int_div (n : Int) {D : Nat} (hD : 0 < D) (hD' : D ≤ 10 ^ 6) :
    Ordinary (n / D) := by
  by_cases hn : n = 0
  · exact .inl (by simp [hn])
  · right
    have h1 : (1 : ℚ) ≤ |(n : ℚ)| := by exact_mod_cast Int.one_le_abs hn
    have hpos : (0 : ℚ) < D := by exact_mod_cast hD
    have hle : (D : ℚ) ≤ 10 ^ 6 := by exact_mod_cast hD'
    have hsmall : (2 : ℚ) ^ (-200 : ℤ) * 10 ^ 6 ≤ 1 := by norm_num
    have hnn : (0 : ℚ) ≤ 2 ^ (-200 : ℤ) := zpow_nonneg (by norm_num) _
    rw [abs_div, abs_of_pos hpos, le_div_iff₀ hpos]
    calc (2 : ℚ) ^ (-200 : ℤ) * D ≤ 2 ^ (-200 : ℤ) * 10 ^ 6 :=
          mul_le_mul_of_nonneg_left hle hnn
      _ ≤ 1 := hsmall
      _ ≤ |(n : ℚ)| := h1

namespace Near

variable {k j : Nat} {x y u v : ℚ}

theorem refl (x : ℚ) : Near 0 x x := ⟨1, by simp, by simp, by simp⟩

theorem mul (h : Near k x y) (h' : Near j u v) : Near (k + j) (x * u) (y * v) := by
  obtain ⟨d, hd, hd', rfl⟩ := h
  obtain ⟨e, he, he', rfl⟩ := h'
  have hlow : (0 : ℚ) ≤ 1 - 2 ^ (-53 : ℤ) := by norm_num
  have hd0 : 0 ≤ d := le_trans (pow_nonneg hlow k) hd
  have he0 : 0 ≤ e := le_trans (pow_nonneg hlow j) he
  refine ⟨d * e, ?_, ?_, by ring⟩
  · rw [pow_add]
    exact mul_le_mul hd he (pow_nonneg hlow j) hd0
  · rw [pow_add]
    exact mul_le_mul hd' he' he0 (le_trans hd0 hd')

theorem div (h : Near k x y) (c : ℚ) : Near k (x / c) (y / c) := by
  obtain ⟨d, hd, hd', rfl⟩ := h
  exact ⟨d, hd, hd', by ring⟩

theorem half_abs_le (h : Near k x y) (hk : k ≤ 10) : |x| / 2 ≤ |y| := by
  obtain ⟨d, hd, -, rfl⟩ := h
  have hlow : (1 / 2 : ℚ) ≤ (1 - 2 ^ (-53 : ℤ)) ^ 10 := by norm_num
  have hpow : (1 - 2 ^ (-53 : ℤ) : ℚ) ^ 10 ≤ (1 - 2 ^ (-53 : ℤ)) ^ k :=
    pow_le_pow_of_le_one (by norm_num) (by norm_num) hk
  have hd2 : 1 / 2 ≤ d := hlow.trans (hpow.trans hd)
  rw [abs_mul, abs_of_nonneg (by linarith : (0 : ℚ) ≤ d)]
  nlinarith [abs_nonneg x]

/-- **One more rounding** adds one to the count. -/
theorem fl (h : Near k x y) (hk : k ≤ 10) (hx : Ordinary x) : Near (k + 1) x (fl y) := by
  rcases hx with rfl | hx
  · obtain ⟨d, hd, hd', rfl⟩ := h
    refine ⟨(1 - 2 ^ (-53 : ℤ)) ^ (k + 1), le_rfl, ?_, by simp⟩
    exact pow_le_pow_left₀ (by norm_num) (by norm_num) _
  · have hhalf : (2 : ℚ) ^ (-201 : ℤ) = 2 ^ (-200 : ℤ) / 2 := by norm_num
    have hy : (2 : ℚ) ^ (-1022 : ℤ) ≤ |y| :=
      calc (2 : ℚ) ^ (-1022 : ℤ) ≤ 2 ^ (-201 : ℤ) :=
            zpow_le_zpow_right₀ (by norm_num) (by norm_num)
        _ ≤ |x| / 2 := by rw [hhalf]; exact div_le_div_of_nonneg_right hx (by norm_num)
        _ ≤ |y| := h.half_abs_le hk
    have hy0 : y ≠ 0 := abs_pos.mp (lt_of_lt_of_le (zpow_pos (by norm_num) _) hy)
    -- the rounding multiplies `y` by a factor within one unit of 1
    have hratio : Near 1 y (Lib.fl y) := by
      refine ⟨Lib.fl y / y, ?_, ?_, by field_simp⟩ <;>
      · have h1 := abs_fl_sub_le_mul hy
        have h2 : |Lib.fl y / y - 1| ≤ 2 ^ (-53 : ℤ) := by
          rw [div_sub_one hy0, abs_div, div_le_iff₀ (abs_pos.mpr hy0), mul_comm]
          exact h1
        rw [abs_le] at h2
        linarith [h2.1, h2.2]
    obtain ⟨d, hd, hd', rfl⟩ := h
    obtain ⟨e, he, he', heq⟩ := hratio
    have := (mul ⟨d, hd, hd', rfl⟩ ⟨e, he, he', rfl⟩ : Near (k + 1) (x * 1) (x * d * (1 * e)))
    rwa [mul_one, one_mul, ← heq] at this

theorem int (n : Int) : Near 1 n (Lib.fl n) := by
  have h := Ordinary.int_div n (D := 1) (by norm_num) (by norm_num)
  simp only [Nat.cast_one, div_one] at h
  exact (refl (n : ℚ)).fl (by norm_num) h

end Near

end Chronos.Lib
