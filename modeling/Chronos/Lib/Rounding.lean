import Chronos.Lib.Binary64

/-!
# Rounding and order

The rounding to binary64 is monotone, and it keeps the numbers that are binary64 numbers
already. A comparison of two such numbers is therefore not disturbed by a sum that is rounded.
-/

namespace Chronos.Lib

/-! ## The nearest integer -/

theorem roundEven_intCast (m : Int) : roundEven m = m := by
  simp [roundEven]

theorem roundEven_cases (x : ℚ) : roundEven x = ⌊x⌋ ∨ roundEven x = ⌊x⌋ + 1 := by
  unfold roundEven
  split
  · exact .inl rfl
  · exact .inr rfl

theorem roundEven_mono {x y : ℚ} (h : x ≤ y) : roundEven x ≤ roundEven y := by
  rcases lt_or_eq_of_le (Int.floor_mono h) with hlt | heq
  · rcases roundEven_cases x with hx | hx <;> rcases roundEven_cases y with hy | hy <;> omega
  · -- between the same two integers the fractional parts decide
    have hfract : Int.fract x ≤ Int.fract y := by
      have hx := Int.floor_add_fract x
      have hy := Int.floor_add_fract y
      rw [heq] at hx
      linarith
    unfold roundEven
    rw [heq]
    split_ifs with hx hy hy
    · exact le_rfl
    · omega
    · exfalso
      apply hx
      rcases hy with hy | ⟨hy, heven⟩
      · exact .inl (by linarith)
      · rcases lt_or_eq_of_le hfract with hlt | hsame
        · exact .inl (by linarith)
        · exact .inr ⟨by linarith, heven⟩
    · exact le_rfl

/-! ## Powers of two -/

/-- The numbers with at most 53 bits above the least exponent are kept. -/
theorem fl_eq_self {m e : Int} (he : -1074 ≤ e) (hm : |m| ≤ 2 ^ 53) :
    fl (m * 2 ^ e) = m * 2 ^ e := by
  by_cases hzero : m = 0
  · simp [hzero]
  have hpos : (0 : ℚ) < 2 ^ e := zpow_pos (by norm_num) _
  have hmpos : (0 : ℚ) < |(m : ℚ)| := abs_pos.mpr (by exact_mod_cast hzero)
  have hplace : lastPlace (m * 2 ^ e) ≤ e ∨ (|m| = 2 ^ 53 ∧ lastPlace (m * 2 ^ e) ≤ e + 1) := by
    have habs : |(m : ℚ) * 2 ^ e| = |(m : ℚ)| * 2 ^ e := by rw [abs_mul, abs_of_pos hpos]
    have key : ∀ k : Nat, |m| < 2 ^ k → Int.log 2 |(m : ℚ) * 2 ^ e| < k + e := by
      intro k hk
      have hcast : |(m : ℚ)| < 2 ^ k := by exact_mod_cast hk
      rw [habs]
      refine (Int.lt_zpow_iff_log_lt (by norm_num) (mul_pos hmpos hpos)).mp ?_
      push_cast
      rw [zpow_add₀ (by norm_num), zpow_natCast]
      exact mul_lt_mul_of_pos_right hcast hpos
    unfold lastPlace
    rcases lt_or_eq_of_le hm with hlt | heq
    · have := key 53 hlt
      exact .inl (max_le (by omega) he)
    · have := key 54 (by rw [heq]; norm_num)
      exact .inr ⟨heq, max_le (by omega) (by omega)⟩
  -- a multiple of the last place is an integer number of places
  have hmultiple : ∀ n : Int, (m : ℚ) * 2 ^ e = n * 2 ^ lastPlace (m * 2 ^ e) →
      fl (m * 2 ^ e) = m * 2 ^ e := by
    intro n hn
    have hplacePos : (2 : ℚ) ^ lastPlace (m * 2 ^ e) ≠ 0 := (zpow_pos (by norm_num) _).ne'
    have hdiv : (m : ℚ) * 2 ^ e / 2 ^ lastPlace (m * 2 ^ e) = n := by
      rw [div_eq_iff hplacePos]
      exact hn
    rw [fl, hdiv, roundEven_intCast, ← hn]
  rcases hplace with hle | ⟨hmax, hle⟩
  · obtain ⟨k, hk⟩ := Int.eq_ofNat_of_zero_le (sub_nonneg.mpr hle)
    refine hmultiple (m * 2 ^ k) ?_
    push_cast
    rw [mul_assoc, ← zpow_natCast, ← zpow_add₀ (by norm_num)]
    congr 2
    omega
  · rcases lt_or_eq_of_le hle with hlt | heq
    · obtain ⟨k, hk⟩ := Int.eq_ofNat_of_zero_le (sub_nonneg.mpr (Int.lt_add_one_iff.mp hlt))
      refine hmultiple (m * 2 ^ k) ?_
      push_cast
      rw [mul_assoc, ← zpow_natCast, ← zpow_add₀ (by norm_num)]
      congr 2
      omega
    · obtain ⟨n, hn⟩ : ∃ n, m = n * 2 := by
        rcases abs_eq (by norm_num) |>.mp hmax with h | h
        · exact ⟨2 ^ 52, by rw [h]; norm_num⟩
        · exact ⟨-2 ^ 52, by rw [h]; norm_num⟩
      refine hmultiple n ?_
      rw [heq, zpow_add_one₀ (by norm_num), hn]
      push_cast
      ring

/-- A number has at most 53 bits above its last place. -/
theorem abs_div_lastPlace_le (x : ℚ) : |x / 2 ^ lastPlace x| ≤ 2 ^ 53 := by
  have hpos : (0 : ℚ) < 2 ^ lastPlace x := zpow_pos (by norm_num) _
  have hexp : Int.log 2 |x| + 1 ≤ 53 + lastPlace x := by
    unfold lastPlace
    omega
  rw [abs_div, abs_of_pos hpos, div_le_iff₀ hpos]
  calc |x| ≤ 2 ^ (Int.log 2 |x| + 1) := (Int.lt_zpow_succ_log_self (by norm_num) _).le
    _ ≤ 2 ^ (53 + lastPlace x) := zpow_le_zpow_right₀ (by norm_num) hexp
    _ = 2 ^ 53 * 2 ^ lastPlace x := by
      rw [zpow_add₀ (by norm_num)]
      norm_num

/-- What has been rounded is a binary64 number. -/
@[simp] theorem fl_fl (x : ℚ) : fl (fl x) = fl x := by
  refine fl_eq_self (le_max_right _ _) (abs_le.mpr ⟨?_, ?_⟩)
  · have h := roundEven_mono (abs_le.mp (abs_div_lastPlace_le x)).1
    have hcast : (-2 ^ 53 : ℚ) = ((-2 ^ 53 : Int) : ℚ) := by norm_num
    rwa [hcast, roundEven_intCast] at h
  · have h := roundEven_mono (abs_le.mp (abs_div_lastPlace_le x)).2
    have hcast : (2 ^ 53 : ℚ) = ((2 ^ 53 : Int) : ℚ) := by norm_num
    rwa [hcast, roundEven_intCast] at h

/-! ## Order -/

theorem lastPlace_mono {x y : ℚ} (hx : 0 < x) (h : x ≤ y) : lastPlace x ≤ lastPlace y := by
  have hlog := Int.log_mono_right (b := 2) hx h
  unfold lastPlace
  rw [abs_of_pos hx, abs_of_pos (hx.trans_le h)]
  exact max_le_max (by omega) le_rfl

/-- A number whose last place is not the least has all 53 bits. -/
theorem le_div_lastPlace {y : ℚ} (hy : 0 < y) (h : -1074 < lastPlace y) :
    2 ^ 52 ≤ y / 2 ^ lastPlace y := by
  have hpos : (0 : ℚ) < 2 ^ lastPlace y := zpow_pos (by norm_num) _
  have hplace : Int.log 2 |y| = 52 + lastPlace y := by
    unfold lastPlace at h ⊢
    omega
  have hlow := two_zpow_log_le hy.ne'
  rw [hplace, abs_of_pos hy, zpow_add₀ (by norm_num)] at hlow
  rw [le_div_iff₀ hpos]
  exact_mod_cast hlow

theorem fl_mono_of_pos {x y : ℚ} (hx : 0 < x) (h : x ≤ y) : fl x ≤ fl y := by
  have hposx : (0 : ℚ) < 2 ^ lastPlace x := zpow_pos (by norm_num) _
  have hposy : (0 : ℚ) < 2 ^ lastPlace y := zpow_pos (by norm_num) _
  rcases lt_or_eq_of_le (lastPlace_mono hx h) with hlt | heq
  · -- a power of two lies between them
    have hupper : fl x ≤ 2 ^ 53 * 2 ^ lastPlace x := by
      have hle := roundEven_mono (abs_le.mp (abs_div_lastPlace_le x)).2
      have hcast : (2 ^ 53 : ℚ) = ((2 ^ 53 : Int) : ℚ) := by norm_num
      rw [hcast, roundEven_intCast] at hle
      refine mul_le_mul_of_nonneg_right ?_ hposx.le
      exact_mod_cast hle
    have hlower : 2 ^ 52 * 2 ^ lastPlace y ≤ fl y := by
      have hle := roundEven_mono (le_div_lastPlace (hx.trans_le h)
        (lt_of_le_of_lt (le_max_right _ _) hlt))
      have hcast : (2 ^ 52 : ℚ) = ((2 ^ 52 : Int) : ℚ) := by norm_num
      rw [hcast, roundEven_intCast] at hle
      refine mul_le_mul_of_nonneg_right ?_ hposy.le
      exact_mod_cast hle
    calc fl x ≤ 2 ^ 53 * 2 ^ lastPlace x := hupper
      _ = 2 ^ 52 * 2 ^ (lastPlace x + 1) := by
        rw [zpow_add_one₀ (by norm_num)]
        ring
      _ ≤ 2 ^ 52 * 2 ^ lastPlace y :=
        mul_le_mul_of_nonneg_left (zpow_le_zpow_right₀ (by norm_num) hlt) (by norm_num)
      _ ≤ fl y := hlower
  · unfold fl
    rw [heq]
    refine mul_le_mul_of_nonneg_right ?_ hposy.le
    exact_mod_cast roundEven_mono (div_le_div_of_nonneg_right h hposy.le)

/-- **Rounding is monotone.** -/
theorem fl_mono {x y : ℚ} (h : x ≤ y) : fl x ≤ fl y := by
  rcases lt_or_ge 0 x with hx | hx
  · exact fl_mono_of_pos hx h
  · rcases lt_or_ge y 0 with hy | hy
    · have hneg := fl_mono_of_pos (neg_pos.mpr hy) (neg_le_neg h)
      rw [fl_neg, fl_neg] at hneg
      exact neg_le_neg_iff.mp hneg
    · exact (fl_nonpos hx).trans (fl_nonneg hy)

/-- A bound that is a binary64 number itself survives the rounding. -/
theorem le_fl_of_le {x y : ℚ} (hx : fl x = x) (h : x ≤ y) : x ≤ fl y :=
  hx ▸ fl_mono h

theorem fl_le_of_le {x y : ℚ} (hy : fl y = y) (h : x ≤ y) : fl x ≤ y :=
  hy ▸ fl_mono h

/-! ## Relative bounds -/

theorem fl_le_mul {x : ℚ} (hx : (2 : ℚ) ^ (-1022 : ℤ) ≤ x) : fl x ≤ x * (1 + 2 ^ (-53 : ℤ)) := by
  have hpos : 0 < x := lt_of_lt_of_le (zpow_pos (by norm_num) _) hx
  have herr := abs_fl_sub_le_mul (x := x) (by rwa [abs_of_pos hpos])
  rw [abs_of_pos hpos] at herr
  linarith [(abs_le.mp herr).2]

theorem mul_le_fl {x : ℚ} (hx : (2 : ℚ) ^ (-1022 : ℤ) ≤ x) : x * (1 - 2 ^ (-53 : ℤ)) ≤ fl x := by
  have hpos : 0 < x := lt_of_lt_of_le (zpow_pos (by norm_num) _) hx
  have herr := abs_fl_sub_le_mul (x := x) (by rwa [abs_of_pos hpos])
  rw [abs_of_pos hpos] at herr
  linarith [(abs_le.mp herr).1]

/-- One rounding more above a bound. -/
theorem le_fl_of_mul_le {x k y : ℚ} (h : x * k ≤ y) (hy : (2 : ℚ) ^ (-1022 : ℤ) ≤ y) :
    x * (k * (1 - 2 ^ (-53 : ℤ))) ≤ fl y := by
  calc x * (k * (1 - 2 ^ (-53 : ℤ))) = x * k * (1 - 2 ^ (-53 : ℤ)) := by ring
    _ ≤ y * (1 - 2 ^ (-53 : ℤ)) := mul_le_mul_of_nonneg_right h (by norm_num)
    _ ≤ fl y := mul_le_fl hy

/-- One rounding more below a bound. -/
theorem fl_le_of_le_mul {x k y : ℚ} (h : y ≤ x * k) (hx : (2 : ℚ) ^ (-1022 : ℤ) ≤ x * k) :
    fl y ≤ x * (k * (1 + 2 ^ (-53 : ℤ))) := by
  calc fl y ≤ fl (x * k) := fl_mono h
    _ ≤ x * k * (1 + 2 ^ (-53 : ℤ)) := fl_le_mul hx
    _ = x * (k * (1 + 2 ^ (-53 : ℤ))) := by ring

/-- A bound far above the subnormal numbers. -/
theorem normal_of_le {x : ℚ} {k : Int} (hk : -1022 ≤ k) (h : (2 : ℚ) ^ k ≤ x) :
    (2 : ℚ) ^ (-1022 : ℤ) ≤ x :=
  (zpow_le_zpow_right₀ (by norm_num) hk).trans h

theorem fl_two_zpow {e : Int} (he : -1074 ≤ e) : fl (2 ^ e) = 2 ^ e := by
  have h := fl_eq_self (m := 1) he (by norm_num)
  rwa [Int.cast_one, one_mul] at h

end Chronos.Lib
