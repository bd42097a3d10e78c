import Chronos.Lib.Budget
import Chronos.Slope.Defs
import Chronos.Work.Iterations

/-!
# Measuring an average slope

`calc_slope_average` measures runs whose length it chooses by the average of the runs before.
On a machine on which an iteration takes between `lo` and `hi` nanoseconds, all these averages
are between the slopes for the slowest and the fastest iterations, up to the roundings.
-/

namespace Chronos.Slope.Calibration

open Lib Work

abbrev SLOPE_GEN_MIN_TIME : Nat := 1 * 1000
abbrev SLOPE_GEN_MAX_TIME : Nat := 250 * 1000
abbrev DEFAULT_AVG_SLOPE_ITERS : Nat := 10000

/-- The slope of a run, for which there is no value where the quotient is not finite. -/
def runSlope (iterations runNsec : Nat) : Option ℚ :=
  if runNsec = 0 then none else some (fl (fl (1000 * fl iterations) / fl runNsec))

/-- How long the `i`-th of `iters` runs should be, in microseconds. -/
def runTime (iters i : Nat) : Nat :=
  SLOPE_GEN_MIN_TIME + i * ((SLOPE_GEN_MAX_TIME - SLOPE_GEN_MIN_TIME) / iters)

section

-- the time of the `k`-th run with so many iterations, in nanoseconds
variable (time : Nat → Nat → Nat) (iters : Nat)

/-- The loop, with `left` runs to go, and the quotient that is returned. -/
def averageLoop : (left i : Nat) → (sum estimatedSlope : ℚ) → Option ℚ
  | 0, i, sum, _ => some (fl (sum / i))
  | left + 1, i, sum, estimatedSlope => do
    let iterations ← toUnsignedLong (fl (runTime iters i * estimatedSlope))
    let slope ← runSlope iterations (time (i + 1) iterations)
    averageLoop left (i + 1) (fl (sum + slope)) (fl (fl (sum + slope) / (i + 1 : Nat)))

def calcSlopeAverage : Option ℚ := do
  let estimatedSlope ← runSlope DEFAULT_AVG_SLOPE_ITERS (time 0 DEFAULT_AVG_SLOPE_ITERS)
  averageLoop time iters iters 0 0 estimatedSlope

end

/-- An iteration takes between `lo` and `hi` nanoseconds. -/
structure Speed (lo hi : ℚ) (time : Nat → Nat → Nat) : Prop where
  lower (k n : Nat) (hn : 0 < n) : lo * n ≤ time k n
  upper (k n : Nat) (hn : 0 < n) : (time k n : ℚ) ≤ hi * n

section

variable {lo hi : ℚ} {time : Nat → Nat → Nat} {iters : Nat}

theorem Speed.le (h : Speed lo hi time) : lo ≤ hi := by
  simpa using (h.lower 0 1 Nat.one_pos).trans (h.upper 0 1 Nat.one_pos)

/-- Far above the subnormal numbers. -/
theorem normal_of_thousandth {x : ℚ} (hx : 1 / 1000 ≤ x) : (2 : ℚ) ^ (-1000 : ℤ) ≤ x := by
  calc (2 : ℚ) ^ (-1000 : ℤ) ≤ 2 ^ (-10 : ℤ) := zpow_le_zpow_right₀ (by norm_num) (by norm_num)
    _ ≤ 1 / 1000 := by norm_num
    _ ≤ x := hx

theorem runSlope_within {n t : Nat} (hn : 0 < n) (hlo : 1 / 1000 ≤ lo) (hhi : hi ≤ 10 ^ 5)
    (hlower : lo * n ≤ t) (hupper : t ≤ hi * n) :
    ∃ slope, runSlope n t = some slope ∧ Within 5 (1000 / hi) (1000 / lo) slope := by
  have hlopos : 0 < lo := by linarith
  have hnone : (1 : ℚ) ≤ n := by exact_mod_cast hn
  have hnpos : (0 : ℚ) < n := by linarith
  have hlohi : lo * n ≤ hi * n := hlower.trans hupper
  have hhipos : 0 < hi := hlopos.trans_le (le_of_mul_le_mul_right hlohi hnpos)
  have hlon : 1 / 1000 ≤ lo * n := hlo.trans (le_mul_of_one_le_right hlopos.le hnone)
  have htpos : t ≠ 0 := by
    rintro rfl
    norm_num at hlower
    linarith
  have hdividend : Within 2 (1000 * n) (1000 * n) (fl (1000 * fl n)) := by
    have hflip : Within 1 (n : ℚ) n (fl n) :=
      (Within.exact hnpos).fl (by norm_num) (normal_of_thousandth (by linarith))
    have hmul := (Within.exact (by norm_num : (0 : ℚ) < 1000)).mul hflip
    exact (hmul.fl (by norm_num) (normal_of_thousandth (by linarith))).mono (by norm_num)
  have hdivisor : Within 1 (lo * n) (hi * n) (fl t) :=
    (Within.of_le (mul_pos hlopos hnpos) hlower hupper).fl (by norm_num) (normal_of_thousandth hlon)
  refine ⟨_, if_neg htpos, ?_⟩
  have hquotient := hdividend.div hdivisor
  rw [mul_div_mul_right _ _ hnpos.ne', mul_div_mul_right _ _ hnpos.ne'] at hquotient
  refine hquotient.fl (by norm_num) (normal_of_thousandth ?_)
  rw [div_le_div_iff₀ (by norm_num) hhipos]
  linarith

/-- The next run has an iteration, and no more than fit into a number. -/
theorem iterations_of_within {k i : Nat} {estimated : ℚ} (hlo : 1 / 1000 ≤ lo) (hhipos : 0 < hi)
    (hhi : hi ≤ 10 ^ 5) (hi' : i < iters) (hk : k < 1000)
    (h : Within k (1000 / hi) (1000 / lo) estimated) :
    ∃ n, toUnsignedLong (fl (runTime iters i * estimated)) = some n ∧ 0 < n := by
  have hlopos : 0 < lo := by linarith
  have htime : 1000 ≤ runTime iters i ∧ runTime iters i ≤ 250000 := by
    have hmul : i * (249000 / iters) ≤ 249000 :=
      (Nat.mul_le_mul_right _ hi'.le).trans (Nat.mul_div_le 249000 iters)
    change 1000 ≤ 1000 + i * (249000 / iters) ∧ 1000 + i * (249000 / iters) ≤ 250000
    omega
  have hlow : (1000 : ℚ) ≤ runTime iters i := by exact_mod_cast htime.1
  have hhigh : (runTime iters i : ℚ) ≤ 250000 := by exact_mod_cast htime.2
  have hA : 1 / 100 ≤ 1000 / hi := by
    rw [div_le_div_iff₀ (by norm_num) hhipos]
    linarith
  have hB : 1000 / lo ≤ 10 ^ 6 := by
    rw [div_le_iff₀ hlopos]
    linarith
  have hproduct := (Within.of_le (by norm_num : (0 : ℚ) < 1000) hlow hhigh).mul h
  rw [Nat.zero_add] at hproduct
  have hone : 1 ≤ fl (runTime iters i * estimated) := by
    refine le_fl_of_le (by simpa using fl_two_zpow (e := 0) (by norm_num)) ?_
    refine le_trans ?_ (hproduct.le_value hk.le)
    have hmargin : (1 : ℚ) / 2 ≤ 1 - 2 ^ (-43 : ℤ) := by norm_num
    have hten : 10 ≤ 1000 * (1000 / hi) := by linarith
    nlinarith
  have hbound : fl (runTime iters i * estimated) ≤ 2 ^ 40 := by
    refine fl_le_of_le (fl_two_zpow (e := 40) (by norm_num)) ?_
    refine (hproduct.value_le hk.le).trans ?_
    have hmargin : (1 : ℚ) + 2 ^ (-42 : ℤ) ≤ 2 := by norm_num
    have hbig : 250000 * (1000 / lo) ≤ 250000 * 10 ^ 6 := by linarith
    have hpos : 0 ≤ 250000 * (1000 / lo) := by positivity
    norm_num at hbig ⊢
    nlinarith
  refine ⟨⌊fl (runTime iters i * estimated)⌋₊, ?_, Nat.floor_pos.mpr hone⟩
  rw [toUnsignedLong_of_nonneg (by linarith), if_pos (lt_of_le_of_lt hbound (by norm_num))]

/-- The loop after `i` runs. -/
theorem averageLoop_within (h : Speed lo hi time) (hlo : 1 / 1000 ≤ lo) (hhi : hi ≤ 10 ^ 5)
    (hiters : iters ≤ 100) {left i : Nat} {sum estimated : ℚ} (hleft : left + i = iters)
    (hsum : i = 0 ∧ sum = 0 ∨ Within (5 + i) (i * (1000 / hi)) (i * (1000 / lo)) sum)
    (hone : 0 < iters) (hestimated : Within (6 + i) (1000 / hi) (1000 / lo) estimated) :
    ∃ slope, averageLoop time iters left i sum estimated = some slope ∧
      Within (6 + iters) (1000 / hi) (1000 / lo) slope := by
  have hhipos : 0 < hi := by linarith [h.le]
  have hlopos : 0 < lo := by linarith
  have hA : 1 / 100 ≤ 1000 / hi := by
    rw [div_le_div_iff₀ (by norm_num) hhipos]
    linarith
  induction left generalizing i sum estimated with
  | zero =>
    obtain rfl : i = iters := by omega
    have hpos : (0 : ℚ) < i := by exact_mod_cast hone
    have hwithin := hsum.resolve_left (by omega)
    refine ⟨_, rfl, ?_⟩
    have hquotient := hwithin.div (Within.exact hpos)
    rw [mul_div_cancel_left₀ _ hpos.ne', mul_div_cancel_left₀ _ hpos.ne'] at hquotient
    exact (hquotient.fl (by omega) (normal_of_thousandth (by linarith))).mono (by omega)
  | succ left ih =>
    have hlt : i < iters := by omega
    obtain ⟨n, hn, hnpos⟩ := iterations_of_within hlo hhipos hhi hlt (by omega) hestimated
    obtain ⟨slope, hslope, hwithin⟩ :=
      runSlope_within hnpos hlo hhi (h.lower (i + 1) n hnpos) (h.upper (i + 1) n hnpos)
    have hsum' : Within (5 + (i + 1)) ((i + 1 : Nat) * (1000 / hi)) ((i + 1 : Nat) * (1000 / lo))
        (fl (sum + slope)) := by
      rcases hsum with ⟨rfl, rfl⟩ | hsum
      · simpa using hwithin.fl (by norm_num) (normal_of_thousandth (by linarith))
      · have hadd := hsum.add (hwithin.mono (Nat.le_add_right 5 i))
        have hcast : ((i + 1 : Nat) : ℚ) = i + 1 := by push_cast; ring
        rw [hcast, add_one_mul, add_one_mul]
        refine (hadd.fl (by omega) (normal_of_thousandth ?_)).mono (by omega)
        have hsum0 : (0 : ℚ) ≤ i * (1000 / hi) := by positivity
        linarith
    have hpos : (0 : ℚ) < (i + 1 : Nat) := by exact_mod_cast Nat.succ_pos i
    have hquotient := hsum'.div (Within.exact hpos)
    rw [mul_div_cancel_left₀ _ hpos.ne', mul_div_cancel_left₀ _ hpos.ne'] at hquotient
    have hestimated' : Within (6 + (i + 1)) (1000 / hi) (1000 / lo)
        (fl (fl (sum + slope) / (i + 1 : Nat))) :=
      (hquotient.fl (by omega) (normal_of_thousandth (by linarith))).mono (by omega)
    obtain ⟨result, hresult, hbound⟩ := ih (by omega) (.inr hsum') hestimated'
    refine ⟨result, ?_, hbound⟩
    rw [averageLoop, hn]
    change (runSlope n (time (i + 1) n) >>= _) = _
    rw [hslope]
    exact hresult

/-- **The average slope** of a machine with such a speed. -/
theorem calcSlopeAverage_within (h : Speed lo hi time) (hlo : 1 / 1000 ≤ lo) (hhi : hi ≤ 10 ^ 5)
    (hiters : iters ≤ 100) (hone : 0 < iters) :
    ∃ slope, calcSlopeAverage time iters = some slope ∧
      Within (6 + iters) (1000 / hi) (1000 / lo) slope := by
  obtain ⟨estimated, hestimated, hwithin⟩ := runSlope_within (n := DEFAULT_AVG_SLOPE_ITERS)
    (by norm_num) hlo hhi (h.lower 0 _ (by norm_num)) (h.upper 0 _ (by norm_num))
  obtain ⟨slope, hslope, hbound⟩ := averageLoop_within h hlo hhi hiters (Nat.add_zero iters)
    (.inl ⟨rfl, rfl⟩) hone (hwithin.mono (by norm_num))
  refine ⟨slope, ?_, hbound⟩
  rw [calcSlopeAverage, hestimated]
  exact hslope

end

end Chronos.Slope.Calibration
