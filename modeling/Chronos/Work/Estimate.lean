import Mathlib.Tactic.GCongr
import Chronos.Work.Timer

/-!
# The estimate of the timer, and the last call

The estimate weighs the newest chunk twice. It never exceeds the slowest chunk by more than the
rounding, so that the last call executes at least what fits into the remaining time at that
speed. As the flag is not checked before the last call, this is also what happens when the task
has been aborted.
-/

namespace Chronos.Work

open Lib

section

variable {now : Nat → ℚ} {lo hi : ℚ} {k : Nat}

/-- What is measured of each of the first `k` chunks. -/
def Measured (now : Nat → ℚ) (lo hi : ℚ) (k : Nat) : Prop :=
  ∀ i < k, lo ≤ fl (now (i + 1) - now i) ∧ fl (now (i + 1) - now i) ≤ hi

theorem Measured.pred (h : Measured now lo hi (k + 1)) : Measured now lo hi k :=
  fun i hi => h i (Nat.lt_succ_of_lt hi)

theorem timerDiff_le {diff last t : ℚ} (hlo : (2 : ℚ) ^ (-200 : ℤ) ≤ lo)
    (hdiff : diff ≤ hi * (1 + 2 ^ (-50 : ℤ)))
    (hstep : lo ≤ fl (t - last)) (hstep' : fl (t - last) ≤ hi) :
    timerDiff diff last t ≤ hi * (1 + 2 ^ (-50 : ℤ)) := by
  have hlopos : 0 < lo := lt_of_lt_of_le (zpow_pos (by norm_num) _) hlo
  have hhi : 0 < hi := hlopos.trans_le (hstep.trans hstep')
  have hnormal : (2 : ℚ) ^ (-201 : ℤ) ≤ hi := by
    calc (2 : ℚ) ^ (-201 : ℤ) ≤ 2 ^ (-200 : ℤ) := zpow_le_zpow_right₀ (by norm_num) (by norm_num)
      _ ≤ hi := hlo.trans (hstep.trans hstep')
  unfold timerDiff
  split
  · exact hstep'.trans (le_mul_of_one_le_right hhi.le (by norm_num))
  · -- each of the three roundings adds at most its relative error
    have htwice : fl (2 * fl (t - last)) ≤ hi * (2 * (1 + 2 ^ (-53 : ℤ))) :=
      fl_le_of_le_mul (by linarith) (normal_of_le (by norm_num) (hnormal.trans (by linarith)))
    have hsum : fl (diff + fl (2 * fl (t - last))) ≤
        hi * ((1 + 2 ^ (-50 : ℤ) + 2 * (1 + 2 ^ (-53 : ℤ))) * (1 + 2 ^ (-53 : ℤ))) := by
      refine fl_le_of_le_mul (by linarith) (normal_of_le (by norm_num) (hnormal.trans ?_))
      refine le_mul_of_one_le_right hhi.le ?_
      norm_num
    have hthird : fl (fl (diff + fl (2 * fl (t - last))) / 3) ≤
        hi * ((1 + 2 ^ (-50 : ℤ) + 2 * (1 + 2 ^ (-53 : ℤ))) * (1 + 2 ^ (-53 : ℤ)) / 3 *
          (1 + 2 ^ (-53 : ℤ))) := by
      refine fl_le_of_le_mul ?_ (normal_of_le (by norm_num) (hnormal.trans ?_))
      · rw [← mul_div_assoc]
        exact div_le_div_of_nonneg_right hsum (by norm_num)
      · refine le_mul_of_one_le_right hhi.le ?_
        norm_num
    refine hthird.trans (mul_le_mul_of_nonneg_left ?_ hhi.le)
    norm_num

theorem le_timerDiff {diff last t : ℚ} (hlo : (2 : ℚ) ^ (-200 : ℤ) ≤ lo) (hdiff : 0 ≤ diff)
    (hstep : lo ≤ fl (t - last)) : lo / 4 ≤ timerDiff diff last t := by
  have hlopos : 0 < lo := lt_of_lt_of_le (zpow_pos (by norm_num) _) hlo
  have hnormal : ∀ x, lo / 4 ≤ x → (2 : ℚ) ^ (-1022 : ℤ) ≤ x := by
    intro x hx
    have hquarter : (2 : ℚ) ^ (-202 : ℤ) = 2 ^ (-200 : ℤ) / 4 := by norm_num
    refine normal_of_le (k := -202) (by norm_num) (le_trans ?_ hx)
    rw [hquarter]
    exact div_le_div_of_nonneg_right hlo (by norm_num)
  unfold timerDiff
  split
  · linarith
  · have htwice : lo * (2 * (1 - 2 ^ (-53 : ℤ))) ≤ fl (2 * fl (t - last)) :=
      le_fl_of_mul_le (by linarith) (hnormal _ (by linarith))
    have hge : lo ≤ fl (2 * fl (t - last)) :=
      le_trans (le_mul_of_one_le_right hlopos.le (by norm_num)) htwice
    have hsum : lo * (2 * (1 - 2 ^ (-53 : ℤ)) * (1 - 2 ^ (-53 : ℤ))) ≤
        fl (diff + fl (2 * fl (t - last))) :=
      le_fl_of_mul_le (by linarith) (hnormal _ (by linarith))
    have hge' : lo ≤ fl (diff + fl (2 * fl (t - last))) :=
      le_trans (le_mul_of_one_le_right hlopos.le (by norm_num)) hsum
    have hthird : lo * (1 / 3 * (1 - 2 ^ (-53 : ℤ))) ≤
        fl (fl (diff + fl (2 * fl (t - last))) / 3) :=
      le_fl_of_mul_le (by linarith) (hnormal _ (by linarith))
    refine le_trans ?_ hthird
    rw [div_eq_mul_inv]
    exact mul_le_mul_of_nonneg_left (by norm_num) hlopos.le

/-- **The estimate** after any number of chunks. -/
theorem estimate_bounds (hlo : (2 : ℚ) ^ (-200 : ℤ) ≤ lo) (h : Measured now lo hi (k + 1)) :
    lo / 4 ≤ estimate now (k + 1) ∧ estimate now (k + 1) ≤ hi * (1 + 2 ^ (-50 : ℤ)) := by
  have hlopos : 0 < lo := lt_of_lt_of_le (zpow_pos (by norm_num) _) hlo
  have hhi : 0 < hi :=
    hlopos.trans_le ((h k (Nat.lt_succ_self k)).1.trans (h k (Nat.lt_succ_self k)).2)
  have key : 0 ≤ estimate now k ∧ estimate now k ≤ hi * (1 + 2 ^ (-50 : ℤ)) := by
    induction k with
    | zero => exact ⟨le_rfl, mul_nonneg hhi.le (by norm_num)⟩
    | succ k ih =>
      obtain ⟨hlow, hup⟩ := ih h.pred
      obtain ⟨hstep, hstep'⟩ := h k (by omega)
      have hle := le_timerDiff hlo hlow hstep
      exact ⟨by unfold estimate; linarith, timerDiff_le hlo hup hstep hstep'⟩
  obtain ⟨hstep, hstep'⟩ := h k (Nat.lt_succ_self k)
  exact ⟨le_timerDiff hlo key.1 hstep, timerDiff_le hlo key.2 hstep hstep'⟩

end

/-! ## The last call -/

/-- The factor that leaves out a part of the time. -/
theorem fl_one_sub_bounds :
    1 / 2 ≤ fl (1 - UNDERESTIMATE_BY) ∧ fl (1 - UNDERESTIMATE_BY) ≤ 1 - 2 ^ (-20 : ℤ) := by
  have hnormal : (2 : ℚ) ^ (-1022 : ℤ) ≤ 5 / 10 ^ 6 :=
    normal_of_le (k := -18) (by norm_num) (by norm_num)
  have hlow := mul_le_fl hnormal
  have hup := fl_le_mul hnormal
  have hhalf : fl (1 / 2) = 1 / 2 := by
    have := fl_two_zpow (e := -1) (by norm_num)
    simpa using this
  have hself : fl (1 - 2 ^ (-20 : ℤ)) = 1 - 2 ^ (-20 : ℤ) := by
    have := fl_eq_self (m := 2 ^ 20 - 1) (e := -20) (by norm_num) (by norm_num)
    norm_num at this ⊢
    exact this
  unfold UNDERESTIMATE_BY
  constructor
  · refine le_fl_of_le hhalf ?_
    have : (5 / 10 ^ 6 * (1 + 2 ^ (-53 : ℤ)) : ℚ) ≤ 1 / 2 := by norm_num
    linarith
  · refine fl_le_of_le hself ?_
    have : (2 ^ (-20 : ℤ) : ℚ) ≤ 5 / 10 ^ 6 * (1 - 2 ^ (-53 : ℤ)) := by norm_num
    linarith

section

variable {remaining diff hi : ℚ} {C : Nat} {m : Int}

/-- `last_iters` before the conversion. -/
def lastQuotient (remaining diff : ℚ) (C : Nat) : ℚ :=
  fl (fl (fl (fl remaining / diff) * fl C) * fl (1 - UNDERESTIMATE_BY))

theorem lt_truncInt_add_one {x : ℚ} (h : truncInt x = some m) : x < m.toNat + 1 := by
  unfold truncInt at h
  split at h
  · cases h
    split
    · next hx =>
      have hcast : ((⌊x⌋.toNat : Nat) : ℚ) = (⌊x⌋ : ℚ) := by
        have : ((⌊x⌋.toNat : Nat) : Int) = ⌊x⌋ := Int.toNat_of_nonneg (Int.floor_nonneg.mpr hx)
        exact_mod_cast this
      rw [hcast]
      exact Int.lt_floor_add_one x
    · next hx =>
      have : (0 : ℚ) ≤ (⌈x⌉.toNat : Nat) := Nat.cast_nonneg _
      linarith [not_le.mp hx]
  · cases h

theorem truncInt_le {x : ℚ} (h : truncInt x = some m) : (m.toNat : ℚ) ≤ max x 0 := by
  unfold truncInt at h
  split at h
  · by_cases hx : 0 ≤ x
    · obtain rfl : ⌊x⌋ = m := by simpa [hx] using h
      have hcast : ((⌊x⌋.toNat : Nat) : ℚ) = (⌊x⌋ : ℚ) := by
        have : ((⌊x⌋.toNat : Nat) : Int) = ⌊x⌋ := Int.toNat_of_nonneg (Int.floor_nonneg.mpr hx)
        exact_mod_cast this
      rw [hcast]
      exact (Int.floor_le x).trans (le_max_left x 0)
    · obtain rfl : ⌈x⌉ = m := by simpa [hx] using h
      have hceil : ⌈x⌉ ≤ 0 := Int.ceil_le.mpr (by exact_mod_cast (not_le.mp hx).le)
      rw [Int.toNat_of_nonpos hceil]
      exact le_max_right x 0
  · cases h

/-- Where more than one iteration fits, the five roundings cost little. -/
theorem le_lastQuotient (hlow : (2 : ℚ) ^ (-202 : ℤ) ≤ diff) (hup : diff ≤ hi * (1 + 2 ^ (-50 : ℤ)))
    (hhipos : 0 < hi) (hC : C < 2 ^ 64) (hfit : hi < remaining * C) :
    remaining * C / hi * fl (1 - UNDERESTIMATE_BY) * (1 - 2 ^ (-48 : ℤ)) ≤
      lastQuotient remaining diff C := by
  have hdiff : 0 < diff := lt_of_lt_of_le (zpow_pos (by norm_num) _) hlow
  have hCpos : 0 < C := by
    rcases Nat.eq_zero_or_pos C with rfl | h
    · rw [Nat.cast_zero, mul_zero] at hfit
      exact absurd hfit (not_lt.mpr hhipos.le)
    · exact h
  have hCone : (1 : ℚ) ≤ C := by exact_mod_cast hCpos
  have hCle : (C : ℚ) ≤ 2 ^ 64 := by exact_mod_cast hC.le
  obtain ⟨hhalf, -⟩ := fl_one_sub_bounds
  -- a chunk's time goes into the remaining time at least half an iteration's share
  have hwhole : 1 / 2 ≤ remaining / diff * C := by
    rw [div_mul_eq_mul_div, div_le_div_iff₀ (by norm_num) hdiff]
    have hslack : hi * (1 + 2 ^ (-50 : ℤ)) ≤ 2 * hi := by
      rw [mul_comm]
      exact mul_le_mul_of_nonneg_right (by norm_num) hhipos.le
    linarith
  have hquotient : 2 ^ (-65 : ℤ) ≤ remaining / diff := by
    have hle : remaining / diff * C ≤ remaining / diff * 2 ^ 64 := by
      refine mul_le_mul_of_nonneg_left hCle ?_
      by_contra hneg
      nlinarith [not_le.mp hneg]
    have hpow : (2 : ℚ) ^ (-65 : ℤ) * 2 ^ 64 = 1 / 2 := by norm_num
    have hmul : (2 : ℚ) ^ (-65 : ℤ) * 2 ^ 64 ≤ remaining / diff * 2 ^ 64 := by
      rw [hpow]
      exact hwhole.trans hle
    exact le_of_mul_le_mul_right hmul (by norm_num)
  have hremaining : (2 : ℚ) ^ (-1022 : ℤ) ≤ remaining := by
    refine normal_of_le (k := -65 + -202) (by norm_num) ?_
    rw [zpow_add₀ (by norm_num), ← div_mul_cancel₀ remaining hdiff.ne']
    exact mul_le_mul hquotient hlow (zpow_nonneg (by norm_num) _) (le_trans (by norm_num) hquotient)
  have h1 : remaining * (1 - 2 ^ (-53 : ℤ)) ≤ fl remaining := mul_le_fl hremaining
  have hdivided : remaining / diff * (1 - 2 ^ (-53 : ℤ)) ≤ fl remaining / diff := by
    rw [div_mul_eq_mul_div]
    exact div_le_div_of_nonneg_right h1 hdiff.le
  have h2 : remaining / diff * ((1 - 2 ^ (-53 : ℤ)) * (1 - 2 ^ (-53 : ℤ))) ≤
      fl (fl remaining / diff) := by
    refine le_fl_of_mul_le hdivided (normal_of_le (k := -66) (by norm_num) (le_trans ?_ hdivided))
    calc (2 : ℚ) ^ (-66 : ℤ) ≤ 2 ^ (-65 : ℤ) * (1 - 2 ^ (-53 : ℤ)) := by norm_num
      _ ≤ remaining / diff * (1 - 2 ^ (-53 : ℤ)) :=
        mul_le_mul_of_nonneg_right hquotient (by norm_num)
  have hC' : C * (1 - 2 ^ (-53 : ℤ)) ≤ fl C :=
    mul_le_fl (normal_of_le (k := 0) (by norm_num) (by simpa using hCone))
  have hproduct : remaining / diff * C * ((1 - 2 ^ (-53 : ℤ)) ^ 3) ≤
      fl (fl remaining / diff) * fl C := by
    have hq0 : (0 : ℚ) ≤ remaining / diff := le_trans (by norm_num) hquotient
    calc remaining / diff * C * ((1 - 2 ^ (-53 : ℤ)) ^ 3)
        = remaining / diff * ((1 - 2 ^ (-53 : ℤ)) * (1 - 2 ^ (-53 : ℤ))) *
            (C * (1 - 2 ^ (-53 : ℤ))) := by ring
      _ ≤ fl (fl remaining / diff) * fl C := by
        refine mul_le_mul h2 hC' (mul_nonneg (by linarith) (by norm_num)) (le_trans ?_ h2)
        exact mul_nonneg hq0 (by norm_num)
  have h3 : remaining / diff * C * ((1 - 2 ^ (-53 : ℤ)) ^ 3 * (1 - 2 ^ (-53 : ℤ))) ≤
      fl (fl (fl remaining / diff) * fl C) := by
    refine le_fl_of_mul_le hproduct (normal_of_le (k := -2) (by norm_num) (le_trans ?_ hproduct))
    calc (2 : ℚ) ^ (-2 : ℤ) ≤ 1 / 2 * (1 - 2 ^ (-53 : ℤ)) ^ 3 := by norm_num
      _ ≤ remaining / diff * C * (1 - 2 ^ (-53 : ℤ)) ^ 3 :=
        mul_le_mul_of_nonneg_right hwhole (by norm_num)
  have hscaled : remaining / diff * C * fl (1 - UNDERESTIMATE_BY) *
      ((1 - 2 ^ (-53 : ℤ)) ^ 3 * (1 - 2 ^ (-53 : ℤ))) ≤
      fl (fl (fl remaining / diff) * fl C) * fl (1 - UNDERESTIMATE_BY) := by
    rw [mul_right_comm]
    exact mul_le_mul_of_nonneg_right h3 (le_trans (by norm_num) hhalf)
  have hwork : 1 / 2 * (1 / 2) ≤ remaining / diff * C * fl (1 - UNDERESTIMATE_BY) :=
    mul_le_mul hwhole hhalf (by norm_num) (le_trans (by norm_num) hwhole)
  have h4 : remaining / diff * C * fl (1 - UNDERESTIMATE_BY) *
      ((1 - 2 ^ (-53 : ℤ)) ^ 3 * (1 - 2 ^ (-53 : ℤ)) * (1 - 2 ^ (-53 : ℤ))) ≤
      lastQuotient remaining diff C := by
    refine le_fl_of_mul_le hscaled (normal_of_le (k := -3) (by norm_num) (le_trans ?_ hscaled))
    calc (2 : ℚ) ^ (-3 : ℤ) ≤ 1 / 2 * (1 / 2) *
          ((1 - 2 ^ (-53 : ℤ)) ^ 3 * (1 - 2 ^ (-53 : ℤ))) := by norm_num
      _ ≤ _ := mul_le_mul_of_nonneg_right hwork (by norm_num)
  have hspeed : remaining * C / hi ≤ remaining / diff * C * (1 + 2 ^ (-50 : ℤ)) := by
    rw [div_mul_eq_mul_div, div_mul_eq_mul_div, div_le_div_iff₀ hhipos hdiff]
    have hnn : 0 ≤ remaining * C := le_trans hhipos.le hfit.le
    calc remaining * C * diff ≤ remaining * C * (hi * (1 + 2 ^ (-50 : ℤ))) :=
          mul_le_mul_of_nonneg_left hup hnn
      _ = remaining * C * (1 + 2 ^ (-50 : ℤ)) * hi := by ring
  calc remaining * C / hi * fl (1 - UNDERESTIMATE_BY) * (1 - 2 ^ (-48 : ℤ))
      ≤ remaining / diff * C * (1 + 2 ^ (-50 : ℤ)) * fl (1 - UNDERESTIMATE_BY) *
          (1 - 2 ^ (-48 : ℤ)) := by
        refine mul_le_mul_of_nonneg_right ?_ (by norm_num)
        exact mul_le_mul_of_nonneg_right hspeed (le_trans (by norm_num) hhalf)
    _ = remaining / diff * C * fl (1 - UNDERESTIMATE_BY) *
          ((1 + 2 ^ (-50 : ℤ)) * (1 - 2 ^ (-48 : ℤ))) := by ring
    _ ≤ remaining / diff * C * fl (1 - UNDERESTIMATE_BY) *
          ((1 - 2 ^ (-53 : ℤ)) ^ 3 * (1 - 2 ^ (-53 : ℤ)) * (1 - 2 ^ (-53 : ℤ))) :=
        mul_le_mul_of_nonneg_left (by norm_num) (le_trans (by norm_num) hwork)
    _ ≤ lastQuotient remaining diff C := h4

/-- The last call never executes more than fits. -/
theorem lastQuotient_le {bound : ℚ} (hlow : (2 : ℚ) ^ (-202 : ℤ) ≤ diff) (hdiff : diff ≤ bound)
    (hbound : remaining ≤ bound) : lastQuotient remaining diff C ≤ bound / diff * C := by
  have hdiffpos : 0 < diff := lt_of_lt_of_le (zpow_pos (by norm_num) _) hlow
  obtain ⟨hhalf, hless⟩ := fl_one_sub_bounds
  rcases Nat.eq_zero_or_pos C with rfl | hCpos
  · simp [lastQuotient]
  have hCone : (1 : ℚ) ≤ C := by exact_mod_cast hCpos
  have hone : 1 ≤ bound / diff := (one_le_div hdiffpos).mpr hdiff
  have hwhole : 1 ≤ bound / diff * C := le_trans hCone (le_mul_of_one_le_left (by linarith) hone)
  have normal : ∀ {x k : ℚ}, 1 / 2 ≤ x → 1 ≤ k → (2 : ℚ) ^ (-1022 : ℤ) ≤ x * k := by
    intro x k hx hk
    refine normal_of_le (k := -1) (by norm_num) ?_
    calc (2 : ℚ) ^ (-1 : ℤ) = 1 / 2 := by norm_num
      _ ≤ x * k := hx.trans (le_mul_of_one_le_right (by linarith) hk)
  have h1 : fl remaining ≤ bound * (1 * (1 + 2 ^ (-53 : ℤ))) := by
    refine fl_le_of_le_mul (by rwa [mul_one]) ?_
    rw [mul_one]
    exact normal_of_le (by norm_num) (hlow.trans hdiff)
  have h2 : fl (fl remaining / diff) ≤
      bound / diff * (1 * (1 + 2 ^ (-53 : ℤ)) * (1 + 2 ^ (-53 : ℤ))) := by
    refine fl_le_of_le_mul ?_ (normal (by linarith) (by norm_num))
    rw [div_mul_eq_mul_div]
    exact div_le_div_of_nonneg_right h1 hdiffpos.le
  have hC' : fl C ≤ C * (1 + 2 ^ (-53 : ℤ)) :=
    fl_le_mul (normal_of_le (k := 0) (by norm_num) (by simpa using hCone))
  have hproduct : fl (fl remaining / diff) * fl C ≤
      bound / diff * C * (1 + 2 ^ (-53 : ℤ)) ^ 3 := by
    calc fl (fl remaining / diff) * fl C
        ≤ bound / diff * (1 * (1 + 2 ^ (-53 : ℤ)) * (1 + 2 ^ (-53 : ℤ))) * fl C :=
          mul_le_mul_of_nonneg_right h2 (fl_nonneg (Nat.cast_nonneg C))
      _ ≤ bound / diff * (1 * (1 + 2 ^ (-53 : ℤ)) * (1 + 2 ^ (-53 : ℤ))) *
            (C * (1 + 2 ^ (-53 : ℤ))) :=
          mul_le_mul_of_nonneg_left hC' (mul_nonneg (by linarith) (by norm_num))
      _ = bound / diff * C * (1 + 2 ^ (-53 : ℤ)) ^ 3 := by ring
  have h3 : fl (fl (fl remaining / diff) * fl C) ≤
      bound / diff * C * ((1 + 2 ^ (-53 : ℤ)) ^ 3 * (1 + 2 ^ (-53 : ℤ))) :=
    fl_le_of_le_mul hproduct (normal (by linarith) (by norm_num))
  have hscaled : fl (fl (fl remaining / diff) * fl C) * fl (1 - UNDERESTIMATE_BY) ≤
      bound / diff * C * fl (1 - UNDERESTIMATE_BY) *
        ((1 + 2 ^ (-53 : ℤ)) ^ 3 * (1 + 2 ^ (-53 : ℤ))) := by
    rw [mul_right_comm _ (fl (1 - UNDERESTIMATE_BY))]
    exact mul_le_mul_of_nonneg_right h3 (le_trans (by norm_num) hhalf)
  have hwork : 1 / 2 ≤ bound / diff * C * fl (1 - UNDERESTIMATE_BY) :=
    hhalf.trans (le_mul_of_one_le_left (le_trans (by norm_num) hhalf) hwhole)
  calc lastQuotient remaining diff C
      ≤ bound / diff * C * fl (1 - UNDERESTIMATE_BY) *
          ((1 + 2 ^ (-53 : ℤ)) ^ 3 * (1 + 2 ^ (-53 : ℤ)) * (1 + 2 ^ (-53 : ℤ))) :=
        fl_le_of_le_mul hscaled (normal hwork (by norm_num))
    _ ≤ bound / diff * C * (1 - 2 ^ (-20 : ℤ)) *
          ((1 + 2 ^ (-53 : ℤ)) ^ 3 * (1 + 2 ^ (-53 : ℤ)) * (1 + 2 ^ (-53 : ℤ))) := by
        refine mul_le_mul_of_nonneg_right ?_ (by norm_num)
        exact mul_le_mul_of_nonneg_left hless (by linarith)
    _ = bound / diff * C * ((1 - 2 ^ (-20 : ℤ)) *
          ((1 + 2 ^ (-53 : ℤ)) ^ 3 * (1 + 2 ^ (-53 : ℤ)) * (1 + 2 ^ (-53 : ℤ)))) := by ring
    _ ≤ bound / diff * C * 1 := mul_le_mul_of_nonneg_left (by norm_num) (by linarith)
    _ = bound / diff * C := mul_one _

end

/-! ## Aborted or not -/

section

variable {flag : Nat → Bool} {cputime : Nat → Nat} {res : Timespec} {usage rounds C j : Nat}
  {slope lo hi : ℚ} {o : Outcome}

/-- A run that leaves the loop after `j` chunks. -/
theorem doWorkTimer_left (hC : toUnsignedLong (slope * ABORT_CHECK_US) = some C)
    (hgo : ∀ i < j, flag i = false ∧ Fits (getThreadCputime ∘ cputime) (timespecToS res)
      (timerEnd (getThreadCputime (cputime 0)) usage) i)
    (hstop : ¬(flag j = false ∧ Fits (getThreadCputime ∘ cputime) (timespecToS res)
      (timerEnd (getThreadCputime (cputime 0)) usage) j))
    (hrounds : j < rounds) (h : doWorkTimer flag cputime res usage slope rounds = some o) :
    o.returned = some (flag (j + 1)) ∧
      ∃ last, finalIters (getThreadCputime ∘ cputime)
        (timerEnd (getThreadCputime (cputime 0)) usage) C j = some last ∧
        o.total = j * C + last := by
  obtain ⟨C', hC', n, hall, hcases⟩ := doWorkTimer_spec h
  obtain rfl : C' = C := Option.some_inj.mp (hC'.symm.trans hC)
  have hle : n ≤ j := Nat.le_of_not_lt fun hlt => hstop (hall j hlt)
  rcases hcases with ⟨rfl, -⟩ | ⟨-, hno, hret, last, hlast, htotal⟩
  · omega
  · have hge : j ≤ n := Nat.le_of_not_lt fun hlt => hno (hgo n hlt)
    obtain rfl : n = j := Nat.le_antisymm hle hge
    exact ⟨hret, last, hlast, htotal⟩

/-- **An abort saves nothing.** When the flag is first found set after `j` chunks, with time
left, the last call still executes what fits into the whole of the remaining time at the speed
of the slowest chunk so far. -/
theorem doWorkTimer_aborted (hlo : (2 : ℚ) ^ (-200 : ℤ) ≤ lo) (hj : 0 < j)
    (hmeasured : Measured (getThreadCputime ∘ cputime) lo hi j)
    (hC : toUnsignedLong (slope * ABORT_CHECK_US) = some C)
    (hgo : ∀ i < j, flag i = false ∧ Fits (getThreadCputime ∘ cputime) (timespecToS res)
      (timerEnd (getThreadCputime (cputime 0)) usage) i)
    (hflag : flag j = true) (hrounds : j < rounds)
    (h : doWorkTimer flag cputime res usage slope rounds = some o) :
    j * C + (timerEnd (getThreadCputime (cputime 0)) usage - getThreadCputime (cputime j)) * C /
      hi * fl (1 - UNDERESTIMATE_BY) * (1 - 2 ^ (-48 : ℤ)) < o.total + 1 := by
  obtain ⟨-, last, hfinal, htotal⟩ := doWorkTimer_left hC hgo (by simp [hflag]) hrounds h
  obtain ⟨k, rfl⟩ := Nat.exists_eq_succ_of_ne_zero hj.ne'
  obtain ⟨hlow, hup⟩ := estimate_bounds hlo hmeasured
  have hlopos : 0 < lo := lt_of_lt_of_le (zpow_pos (by norm_num) _) hlo
  have hhi : 0 < hi := hlopos.trans_le ((hmeasured 0 hj).1.trans (hmeasured 0 hj).2)
  have hCle : C < 2 ^ 64 := by
    unfold toUnsignedLong at hC
    split at hC
    · next hrange =>
      cases hC
      have hlt : ⌊slope * (ABORT_CHECK_US : ℚ)⌋ < 2 ^ 64 :=
        Int.floor_lt.mpr (by exact_mod_cast hrange.2)
      omega
    · cases hC
  rw [htotal]
  push_cast
  suffices hlast : (timerEnd (getThreadCputime (cputime 0)) usage -
      getThreadCputime (cputime (k + 1))) * C / hi * fl (1 - UNDERESTIMATE_BY) *
        (1 - 2 ^ (-48 : ℤ)) < last + 1 by linarith
  generalize hrem : timerEnd (getThreadCputime (cputime 0)) usage -
    getThreadCputime (cputime (k + 1)) = remaining
  rcases lt_or_ge hi (remaining * C) with hfit | hsmall
  · have hquarter : (2 : ℚ) ^ (-202 : ℤ) ≤ estimate (getThreadCputime ∘ cputime) (k + 1) := by
      have hpow : (2 : ℚ) ^ (-202 : ℤ) = 2 ^ (-200 : ℤ) / 4 := by norm_num
      rw [hpow]
      exact (div_le_div_of_nonneg_right hlo (by norm_num)).trans hlow
    have hquotient := le_lastQuotient hquarter hup hhi hCle hfit
    unfold finalIters at hfinal
    rw [if_neg (lt_of_lt_of_le (by linarith) hlow).ne', Option.map_eq_some_iff] at hfinal
    obtain ⟨m, hm, rfl⟩ := hfinal
    rw [lastIters, Function.comp_apply, hrem] at hm
    exact hquotient.trans_lt (lt_truncInt_add_one hm)
  · -- less than one iteration fits
    obtain ⟨hhalf, hless⟩ := fl_one_sub_bounds
    have hone : remaining * C / hi ≤ 1 := (div_le_one hhi).mpr hsmall
    have hnn : (0 : ℚ) ≤ last := Nat.cast_nonneg last
    have hfactor : remaining * C / hi * fl (1 - UNDERESTIMATE_BY) * (1 - 2 ^ (-48 : ℤ)) ≤
        1 * fl (1 - UNDERESTIMATE_BY) * (1 - 2 ^ (-48 : ℤ)) := by
      refine mul_le_mul_of_nonneg_right ?_ (by norm_num)
      exact mul_le_mul_of_nonneg_right hone (by linarith)
    have hlt : 1 * fl (1 - UNDERESTIMATE_BY) * (1 - 2 ^ (-48 : ℤ)) < 1 := by
      calc 1 * fl (1 - UNDERESTIMATE_BY) * (1 - 2 ^ (-48 : ℤ))
          ≤ 1 * (1 - 2 ^ (-20 : ℤ)) * (1 - 2 ^ (-48 : ℤ)) := by
            refine mul_le_mul_of_nonneg_right ?_ (by norm_num)
            linarith
        _ < 1 := by norm_num
    exact hfactor.trans_lt (hlt.trans_le (by linarith))

/-- Two chunks of thirty microseconds of work, and an abort. -/
theorem doWorkTimer_aborted_two :
    (2 : Nat) * (100 : Nat) + (timerEnd (getThreadCputime (sampleClock 0)) 30 -
      getThreadCputime (sampleClock 2)) * (100 : Nat) / (1 / 10 ^ 5) *
        fl (1 - UNDERESTIMATE_BY) * (1 - 2 ^ (-48 : ℤ)) <
      (Outcome.total ⟨[.check false, .work 100, .check false, .work 100, .check true,
        .work 3149, .check true], some true⟩ : ℚ) + 1 :=
  have h : doWorkTimer (2 ≤ ·) sampleClock ⟨0, 1⟩ 30 100 10 = some ⟨[.check false, .work 100,
      .check false, .work 100, .check true, .work 3149, .check true], some true⟩ := by
    decide +kernel
  have hmeasured : Measured (getThreadCputime ∘ sampleClock) (1 / 10 ^ 7) (1 / 10 ^ 5) 2 := by
    unfold Measured
    decide +kernel
  doWorkTimer_aborted (j := 2)
    ((zpow_le_zpow_right₀ (by norm_num) (by norm_num : (-200 : ℤ) ≤ -30)).trans (by norm_num))
    (by norm_num) hmeasured (by decide +kernel) (by decide +kernel) (by decide) (by norm_num) h

/-- **Polling**: when the loop is left because the time is over, the last call executes at most
one chunk, and what the resolution of the clock and the rounding amount to. -/
theorem doWorkTimer_last_chunk (hlo : (2 : ℚ) ^ (-200 : ℤ) ≤ lo) (hj : 0 < j)
    (hmeasured : Measured (getThreadCputime ∘ cputime) lo hi j)
    (hC : toUnsignedLong (slope * ABORT_CHECK_US) = some C)
    (hgo : ∀ i < j, flag i = false ∧ Fits (getThreadCputime ∘ cputime) (timespecToS res)
      (timerEnd (getThreadCputime (cputime 0)) usage) i)
    (hstop : ¬Fits (getThreadCputime ∘ cputime) (timespecToS res)
      (timerEnd (getThreadCputime (cputime 0)) usage) j) (hrounds : j < rounds)
    (h : doWorkTimer flag cputime res usage slope rounds = some o) :
    let diff := estimate (getThreadCputime ∘ cputime) j
    o.total ≤ j * C + (diff + timespecToS res +
      (getThreadCputime (cputime j) + diff + timespecToS res) * 2 ^ (-51 : ℤ)) / diff * C := by
  obtain ⟨-, last, hfinal, htotal⟩ := doWorkTimer_left hC hgo (fun h => hstop h.2) hrounds h
  obtain ⟨k, rfl⟩ := Nat.exists_eq_succ_of_ne_zero hj.ne'
  obtain ⟨hlow, -⟩ := estimate_bounds hlo hmeasured
  have hlopos : 0 < lo := lt_of_lt_of_le (zpow_pos (by norm_num) _) hlo
  have hres := timespecToS_nonneg res
  have hnow : 0 ≤ getThreadCputime (cputime (k + 1)) := timespecToS_nonneg _
  unfold Fits at hstop
  unfold finalIters at hfinal
  rw [Function.comp_apply] at hstop hfinal
  simp only [Nat.succ_eq_add_one] at hstop hfinal ⊢
  generalize estimate (getThreadCputime ∘ cputime) (k + 1) = diff at *
  generalize getThreadCputime (cputime (k + 1)) = now at *
  generalize timerEnd (getThreadCputime (cputime 0)) usage = endTime at *
  generalize timespecToS res = r at *
  have hquarter : (2 : ℚ) ^ (-202 : ℤ) ≤ diff := by
    have hpow : (2 : ℚ) ^ (-202 : ℤ) = 2 ^ (-200 : ℤ) / 4 := by norm_num
    rw [hpow]
    exact (div_le_div_of_nonneg_right hlo (by norm_num)).trans hlow
  have hdiff : 0 < diff := lt_of_lt_of_le (zpow_pos (by norm_num) _) hquarter
  -- the end as the test of the loop sees it
  have hsum : fl (now + diff) ≤ (now + diff) * (1 * (1 + 2 ^ (-53 : ℤ))) := by
    refine fl_le_of_le_mul (by rw [mul_one]) ?_
    rw [mul_one]
    exact normal_of_le (by norm_num) (hquarter.trans (by linarith))
  have hsum' : fl (now + diff) + r ≤ (now + diff + r) * (1 + 2 ^ (-53 : ℤ)) := by
    have hmore : r ≤ r * (1 + 2 ^ (-53 : ℤ)) := le_mul_of_one_le_right hres (by norm_num)
    rw [add_mul (now + diff) r]
    linarith
  have hend : endTime ≤ (now + diff + r) * ((1 + 2 ^ (-53 : ℤ)) * (1 + 2 ^ (-53 : ℤ))) := by
    refine (not_lt.mp hstop).trans (fl_le_of_le_mul hsum' ?_)
    refine normal_of_le (by norm_num) (hquarter.trans ?_)
    exact le_trans (by linarith) (le_mul_of_one_le_right (by linarith) (by norm_num))
  have hremaining : endTime - now ≤ diff + r + (now + diff + r) * 2 ^ (-51 : ℤ) := by
    have hfactor : (now + diff + r) * ((1 + 2 ^ (-53 : ℤ)) * (1 + 2 ^ (-53 : ℤ))) ≤
        (now + diff + r) * (1 + 2 ^ (-51 : ℤ)) :=
      mul_le_mul_of_nonneg_left (by norm_num) (by linarith)
    rw [mul_add (now + diff + r) 1, mul_one] at hfactor
    linarith
  have hbound : diff ≤ diff + r + (now + diff + r) * 2 ^ (-51 : ℤ) := by
    have : 0 ≤ (now + diff + r) * 2 ^ (-51 : ℤ) := mul_nonneg (by linarith) (by norm_num)
    linarith
  have hquotient := lastQuotient_le (C := C) hquarter hbound hremaining
  rw [if_neg hdiff.ne', Option.map_eq_some_iff] at hfinal
  obtain ⟨m, hm, rfl⟩ := hfinal
  rw [htotal]
  push_cast
  have hlast : (m.toNat : ℚ) ≤
      (diff + r + (now + diff + r) * 2 ^ (-51 : ℤ)) / diff * C := by
    refine (truncInt_le hm).trans (max_le hquotient ?_)
    exact mul_nonneg (div_nonneg (by linarith) hdiff.le) (Nat.cast_nonneg C)
  linarith

/-- Three microseconds of work, with a chunk for each. -/
theorem doWorkTimer_last_chunk_three :
    let diff := estimate (getThreadCputime ∘ sampleClock) 3
    (Outcome.total ⟨[.check false, .work 100, .check false, .work 100, .check false, .work 100,
      .check false, .check false], some false⟩ : ℚ) ≤
      (3 : Nat) * (100 : Nat) + (diff + timespecToS ⟨0, 1⟩ +
        (getThreadCputime (sampleClock 3) + diff + timespecToS ⟨0, 1⟩) * 2 ^ (-51 : ℤ)) / diff *
          (100 : Nat) :=
  have h : doWorkTimer (fun _ => false) sampleClock ⟨0, 1⟩ 3 100 10 = some ⟨[.check false,
      .work 100, .check false, .work 100, .check false, .work 100, .check false, .check false],
      some false⟩ := by decide +kernel
  have hmeasured : Measured (getThreadCputime ∘ sampleClock) (1 / 10 ^ 7) (1 / 10 ^ 5) 3 := by
    unfold Measured
    decide +kernel
  doWorkTimer_last_chunk (j := 3)
    ((zpow_le_zpow_right₀ (by norm_num) (by norm_num : (-200 : ℤ) ≤ -30)).trans (by norm_num))
    (by norm_num) hmeasured (by decide +kernel) (by decide +kernel) (by decide +kernel)
    (by norm_num) h

end

end Chronos.Work
