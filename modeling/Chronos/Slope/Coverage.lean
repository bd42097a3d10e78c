import Chronos.Slope.Defs

/-!
# Which sizes have a slope

The last sample of `update_slopes` is a tenth of the range below the largest size, and
`get_workload_slope` only interpolates between two lines. A size has a slope exactly
when it is not above the last sample.
-/

namespace Chronos.Slope

open Lib Taskset

/-! ## The interpolation is positive -/

/-- The least slope that is written, with a margin. -/
abbrev least : ℚ := 1 / 10 ^ 7

theorem two_zpow_le_tiny {n : Int} (hn : n ≤ -100) : (2 : ℚ) ^ n ≤ 1 / 2 ^ 100 := by
  have hle : (2 : ℚ) ^ n ≤ 2 ^ (-100 : ℤ) := zpow_le_zpow_right₀ (by norm_num) hn
  refine hle.trans (le_of_eq ?_)
  norm_num

theorem least_le_fl_printSlope {slope : ℚ} (h : 1 / (2 * 10 ^ 6) < slope) :
    least ≤ fl (printSlope slope) := by
  have hround : 1 ≤ roundEven (slope * 10 ^ 6) := roundEven_pos (by linarith)
  have hprint : 1 / 10 ^ 6 ≤ printSlope slope := by
    have hround' : (1 : ℚ) ≤ roundEven (slope * 10 ^ 6) := by exact_mod_cast hround
    unfold printSlope
    gcongr
  have hpos : 0 < printSlope slope := by linarith
  have hnormal : (2 : ℚ) ^ (-1022 : ℤ) ≤ |printSlope slope| := by
    rw [abs_of_pos hpos]
    exact (two_zpow_le_tiny (by norm_num)).trans (le_trans (by norm_num) hprint)
  have herr := (abs_le.mp (abs_fl_sub_le_mul hnormal)).1
  have hunit : (2 : ℚ) ^ (-53 : ℤ) = 1 / 2 ^ 53 := by norm_num
  rw [abs_of_pos hpos, hunit] at herr
  unfold least
  linarith

/-- A quotient of sizes, the first one smaller, stays away from 1. -/
theorem percentage_bounds {a b : Int} (ha : 0 < a) (hab : a < b) (hb : b < 2 ^ 25) :
    0 ≤ fl (fl a / fl b) ∧ fl (fl a / fl b) ≤ 1 - 2 ^ (-26 : ℤ) := by
  have ha' : (1 : ℚ) ≤ a := by exact_mod_cast ha
  have hab' : (a : ℚ) + 1 ≤ b := by exact_mod_cast hab
  have hb' : (b : ℚ) ≤ 2 ^ 25 := by exact_mod_cast hb.le
  have hunit : (2 : ℚ) ^ (-53 : ℤ) = 1 / 2 ^ 53 := by norm_num
  have hnormal {x : ℚ} (hx : 1 ≤ x) : |fl x - x| ≤ x * (1 / 2 ^ 53) := by
    have hpos : 0 < x := by linarith
    have herr := abs_fl_sub_le_mul (x := x)
      (by
        rw [abs_of_pos hpos]
        exact (two_zpow_le_tiny (by norm_num)).trans (le_trans (by norm_num) hx))
    rwa [abs_of_pos hpos, hunit] at herr
  have hfa := (abs_le.mp (hnormal ha')).2
  have hfb := (abs_le.mp (hnormal (by linarith : (1 : ℚ) ≤ b))).1
  have hfb0 : 0 < fl b := by linarith
  have hquot : fl a / fl b ≤ 1 - 3 / 2 ^ 27 := by
    rw [div_le_iff₀ hfb0]
    linarith
  have hquot0 : 0 ≤ fl a / fl b := div_nonneg (fl_nonneg (by linarith)) hfb0.le
  refine ⟨fl_nonneg hquot0, ?_⟩
  have herr := (abs_le.mp (abs_fl_sub_le_add (fl a / fl b))).2
  rw [abs_of_nonneg hquot0, hunit] at herr
  have hsmall : (2 : ℚ) ^ (-1075 : ℤ) ≤ 1 / 2 ^ 100 := two_zpow_le_tiny (by norm_num)
  have hgoal : (2 : ℚ) ^ (-26 : ℤ) = 2 / 2 ^ 27 := by norm_num
  rw [hgoal]
  linarith

/-- A point between two slopes is positive, whatever the roundings. -/
theorem interpolation_pos {lower higher p : ℚ} (hlower : least ≤ lower) (hhigher : least ≤ higher)
    (hp : 0 ≤ p) (hp1 : p ≤ 1 - 2 ^ (-26 : ℤ)) :
    0 < fl (lower + fl (p * fl (higher - lower))) := by
  have hleast : (2 : ℚ) ^ (-1022 : ℤ) ≤ least * (1 / 2 ^ 27) :=
    (two_zpow_le_tiny (by norm_num)).trans (by norm_num)
  have hunit : (2 : ℚ) ^ (-53 : ℤ) = 1 / 2 ^ 53 := by norm_num
  apply fl_pos
  rcases le_total lower higher with hle | hle
  · have hdiff := fl_nonneg (sub_nonneg.mpr hle)
    have hprod := fl_nonneg (mul_nonneg hp hdiff)
    unfold least at hlower hleast
    linarith
  · -- the difference takes away less than the lower slope
    have hsmall : (2 : ℚ) ^ (-1075 : ℤ) ≤ lower * (1 / 2 ^ 60) := by
      have hle' : least * (1 / 2 ^ 60) ≤ lower * (1 / 2 ^ 60) := by gcongr
      exact (two_zpow_le_tiny (by norm_num)).trans (le_trans (by norm_num) hle')
    have hpos : 0 < lower := lt_of_lt_of_le (by norm_num) hlower
    have hpos' : 0 < higher := lt_of_lt_of_le (by norm_num) hhigher
    have hdiff : |fl (higher - lower)| ≤ lower * (1 + 1 / 2 ^ 52) := by
      have herr := abs_fl_sub_le_add (higher - lower)
      have habs : |higher - lower| ≤ lower := by
        rw [abs_of_nonpos (by linarith)]
        linarith
      have htri : |fl (higher - lower)| ≤ |fl (higher - lower) - (higher - lower)| +
          |higher - lower| := by
        have h := abs_add_le (fl (higher - lower) - (higher - lower)) (higher - lower)
        rwa [sub_add_cancel] at h
      rw [hunit] at herr
      linarith
    have hprod : |p * fl (higher - lower)| ≤ (1 - 1 / 2 ^ 26) * (lower * (1 + 1 / 2 ^ 52)) := by
      rw [abs_mul, abs_of_nonneg hp]
      refine mul_le_mul ?_ hdiff (abs_nonneg _) (by norm_num)
      refine hp1.trans (le_of_eq ?_)
      norm_num
    have hround : -(lower * (1 - 1 / 2 ^ 27)) ≤ fl (p * fl (higher - lower)) := by
      have herr := (abs_le.mp (abs_fl_sub_le_add (p * fl (higher - lower)))).1
      have hlow := (abs_le.mp hprod).1
      rw [hunit] at herr
      linarith
    have hmargin : least * (1 / 2 ^ 27) ≤ lower * (1 / 2 ^ 27) := by gcongr
    linarith

/-! ## The search -/

/-- What the search knows: a neighbour that is set is on its side of the size, not far
from it, and has a positive slope. -/
structure Neighbours.Valid (target : Int) (s : Neighbours) : Prop where
  lower : s.lowerSlope < 0 ∨ (least ≤ s.lowerSlope ∧ 0 ≤ s.lowerWss ∧ s.lowerWss < target)
  higher : s.higherSlope < 0 ∨
    (least ≤ s.higherSlope ∧ target < s.higherWss ∧ s.higherWss < 2 ^ 25)

/-- A line with a positive slope and a size that a workload can have. -/
structure Line.Valid (l : Line) : Prop where
  slope : least ≤ fl l.slope
  wss : 0 ≤ l.wss ∧ l.wss < 2 ^ 25

section Search

variable {target : Int} {s : Neighbours} {lines : List Line}

theorem Neighbours.Valid.interpolate_pos (h : s.Valid target) (hlower : 0 ≤ s.lowerSlope)
    (hhigher : 0 ≤ s.higherSlope) : 0 < s.interpolate target := by
  obtain ⟨hlow, hlow0, hlowt⟩ := h.lower.resolve_left (not_lt.mpr hlower)
  obtain ⟨hhigh, hhight, hhigh25⟩ := h.higher.resolve_left (not_lt.mpr hhigher)
  obtain ⟨hp, hp1⟩ := percentage_bounds (a := target - s.lowerWss)
    (b := s.higherWss - s.lowerWss) (by omega) (by omega) (by omega)
  exact interpolation_pos hlow hhigh hp hp1

/-- **The search finds a slope** for a size with a line not above it and a line not
below it. -/
theorem searchSlope_pos (h : s.Valid target) (hlines : ∀ l ∈ lines, l.Valid)
    (hlower : 0 ≤ s.lowerSlope ∨ ∃ l ∈ lines, l.wss ≤ target)
    (hhigher : 0 ≤ s.higherSlope ∨ ∃ l ∈ lines, target ≤ l.wss) :
    0 < searchSlope target s lines := by
  induction lines generalizing s with
  | nil =>
    have hlower' : 0 ≤ s.lowerSlope := hlower.resolve_right (by simp)
    have hhigher' : 0 ≤ s.higherSlope := hhigher.resolve_right (by simp)
    rw [searchSlope, if_neg (by simp [hlower', hhigher'])]
    exact h.interpolate_pos hlower' hhigher'
  | cons l lines ih =>
    have hl := hlines l List.mem_cons_self
    have hrest := fun l' hl' => hlines l' (List.mem_cons_of_mem l hl')
    have hslope : 0 ≤ fl l.slope := le_trans (by norm_num) hl.slope
    rw [List.exists_mem_cons_iff] at hlower hhigher
    rw [searchSlope]
    split
    · exact lt_of_lt_of_le (by norm_num) hl.slope
    · next hne =>
      split
      · next hbelow =>
        refine ih ⟨.inr ⟨hl.slope, hl.wss.1, hbelow.1⟩, h.higher⟩ hrest (.inl hslope) ?_
        exact hhigher.imp_right fun hex => hex.resolve_left (by omega)
      · next hnotBelow =>
        split
        · next habove =>
          refine ih ⟨h.lower, .inr ⟨hl.slope, habove.1, hl.wss.2⟩⟩ hrest ?_ (.inl hslope)
          exact hlower.imp_right fun hex => hex.resolve_left (by omega)
        · next hnotAbove =>
          -- a line that is passed over has a closer one on its side
          apply ih h hrest
          · rcases hlower with hlower | hlower | hlower
            · exact .inl hlower
            · have hlt : l.wss < target := by omega
              exact .inl (not_lt.mp fun hneg => hnotBelow ⟨hlt, .inl hneg⟩)
            · exact .inr hlower
          · rcases hhigher with hhigher | hhigher | hhigher
            · exact .inl hhigher
            · have hlt : target < l.wss := by omega
              exact .inl (not_lt.mp fun hneg => hnotAbove ⟨hlt, .inl hneg⟩)
            · exact .inr hhigher

/-- There is no slope for a size above all lines. -/
theorem searchSlope_above (hlines : ∀ l ∈ lines, l.wss < target) (hs : s.higherSlope < 0) :
    searchSlope target s lines = -1 := by
  induction lines generalizing s with
  | nil => rw [searchSlope, if_pos (.inl hs)]
  | cons l lines ih =>
    have hl := hlines l List.mem_cons_self
    have hrest := fun l' hl' => hlines l' (List.mem_cons_of_mem l hl')
    rw [searchSlope, if_neg (by omega)]
    split
    · exact ih hrest hs
    · rw [if_neg (by omega)]
      exact ih hrest hs

end Search

/-! ## The samples -/

/-- The size of the last sample: `min` and nine tenths of the range. -/
def lastSample (min max : Nat) : Nat := min + 9 * (max - min) / SLOPE_GEN_WSS_SAMPLES

theorem sampleWss_eq {min max i : Nat} (hle : min ≤ max) (hmax : max ≤ 10485760) (hi : i < 10) :
    sampleWss min max i = min + i * (max - min) / 10 := by
  have hmul : i * (max - min) ≤ 9 * (max - min) := Nat.mul_le_mul_right _ (by omega)
  have hdiff : (max + 2 ^ 32 - min) % 2 ^ 32 = max - min := by omega
  unfold sampleWss SLOPE_GEN_WSS_SAMPLES
  rw [hdiff]
  generalize i * (max - min) = k at hmul
  omega

/-- The samples lie between the smallest size and the last one. -/
theorem sampleWss_bounds {min max i : Nat} (hle : min ≤ max) (hmax : max ≤ 10485760)
    (hi : i < 10) : min ≤ sampleWss min max i ∧ sampleWss min max i ≤ lastSample min max := by
  have hmul : i * (max - min) ≤ 9 * (max - min) := Nat.mul_le_mul_right _ (by omega)
  rw [sampleWss_eq hle hmax hi]
  unfold lastSample SLOPE_GEN_WSS_SAMPLES
  generalize i * (max - min) = k at hmul
  omega

/-- The sizes that `init_task` and `init_group` can store, for what the workload has. -/
structure Admissible (w : Workload) (taskWss groupWss : Nat) : Prop where
  task : w.capabilities &&& WORKLOAD_CAP_TASK_WSS ≠ 0 →
    w.minTaskWss ≤ taskWss ∧ taskWss ≤ w.maxTaskWss
  group : w.capabilities &&& WORKLOAD_CAP_GROUP_WSS ≠ 0 →
    w.minGroupWss ≤ groupWss ∧ groupWss ≤ w.maxGroupWss

section Samples

variable {w : Workload} {measured : Nat → ℚ}

/-- The sizes of the samples that are written. -/
def sampleLine (w : Workload) (measured : Nat → ℚ) (i : Nat) : Line where
  wss := realWss w (sampleWss w.minTaskWss w.maxTaskWss i) (sampleWss w.minGroupWss w.maxGroupWss i)
  slope := printSlope (measured i)

/-- Each sample is appended. -/
theorem foldl_putWorkloadSlope (is : List Nat) (file : List Line) :
    is.foldl (fun file i =>
      putWorkloadSlope w (measured i) (sampleWss w.minTaskWss w.maxTaskWss i)
        (sampleWss w.minGroupWss w.maxGroupWss i) file) file =
      file ++ is.map (sampleLine w measured) := by
  induction is generalizing file with
  | nil => simp
  | cons i is ih =>
    rw [List.foldl_cons, ih]
    simp [putWorkloadSlope, sampleLine]

theorem updateSlopes_eq (h : noWssVariation w = false) :
    updateSlopes w measured = (List.range SLOPE_GEN_WSS_SAMPLES).map (sampleLine w measured) := by
  unfold updateSlopes
  rw [h]
  exact foldl_putWorkloadSlope _ []

/-- What is known of the workload: it has a size that varies, and its bounds are valid. -/
structure Varying (w : Workload) : Prop where
  varies : noWssVariation w = false
  valid : workloadWssValidBounds w = true

theorem Varying.bounds (h : Varying w) :
    (w.capabilities &&& WORKLOAD_CAP_TASK_WSS ≠ 0 → w.maxTaskWss ≤ 10485760) ∧
      (w.capabilities &&& WORKLOAD_CAP_GROUP_WSS ≠ 0 → w.maxGroupWss ≤ 10485760) := by
  have hvalid := h.valid
  unfold workloadWssValidBounds at hvalid
  grind

theorem realWss_le {taskWss taskWss' groupWss groupWss' : Nat}
    (htask : w.capabilities &&& WORKLOAD_CAP_TASK_WSS ≠ 0 → taskWss ≤ taskWss')
    (hgroup : w.capabilities &&& WORKLOAD_CAP_GROUP_WSS ≠ 0 → groupWss ≤ groupWss') :
    realWss w taskWss groupWss ≤ realWss w taskWss' groupWss' := by
  unfold realWss
  split <;> split <;> grind

/-- The size of the last sample of a workload. -/
def lastWss (w : Workload) : Int :=
  realWss w (lastSample w.minTaskWss w.maxTaskWss) (lastSample w.minGroupWss w.maxGroupWss)

section Sizes

variable {taskWss groupWss i : Nat}

theorem realWss_nonneg : 0 ≤ realWss w taskWss groupWss := by
  unfold realWss
  split <;> split <;> omega

/-- The first sample is not above a size that can be stored. -/
theorem sampleLine_zero_le (h : Varying w) (hwss : Admissible w taskWss groupWss) :
    (sampleLine w measured 0).wss ≤ realWss w taskWss groupWss := by
  apply realWss_le
  · intro hcap
    obtain ⟨hmin, hmax⟩ := hwss.task hcap
    rw [sampleWss_eq (hmin.trans hmax) (h.bounds.1 hcap) (by norm_num)]
    omega
  · intro hcap
    obtain ⟨hmin, hmax⟩ := hwss.group hcap
    rw [sampleWss_eq (hmin.trans hmax) (h.bounds.2 hcap) (by norm_num)]
    omega

theorem sampleLine_le_lastWss (h : Varying w) (hwss : Admissible w taskWss groupWss)
    (hi : i < SLOPE_GEN_WSS_SAMPLES) : (sampleLine w measured i).wss ≤ lastWss w := by
  apply realWss_le
  · intro hcap
    obtain ⟨hmin, hmax⟩ := hwss.task hcap
    exact (sampleWss_bounds (hmin.trans hmax) (h.bounds.1 hcap) hi).2
  · intro hcap
    obtain ⟨hmin, hmax⟩ := hwss.group hcap
    exact (sampleWss_bounds (hmin.trans hmax) (h.bounds.2 hcap) hi).2

theorem lastWss_le_sampleLine (h : Varying w) (hwss : Admissible w taskWss groupWss) :
    lastWss w ≤ (sampleLine w measured 9).wss := by
  apply realWss_le
  · intro hcap
    obtain ⟨hmin, hmax⟩ := hwss.task hcap
    rw [sampleWss_eq (hmin.trans hmax) (h.bounds.1 hcap) (by norm_num), lastSample]
  · intro hcap
    obtain ⟨hmin, hmax⟩ := hwss.group hcap
    rw [sampleWss_eq (hmin.trans hmax) (h.bounds.2 hcap) (by norm_num), lastSample]

theorem lastWss_lt (h : Varying w) (hwss : Admissible w taskWss groupWss) :
    lastWss w < 2 ^ 25 := by
  have hle : lastWss w ≤ realWss w 10485760 10485760 := by
    apply realWss_le
    · intro hcap
      obtain ⟨hmin, hmax⟩ := hwss.task hcap
      have hbound := h.bounds.1 hcap
      unfold lastSample SLOPE_GEN_WSS_SAMPLES
      omega
    · intro hcap
      obtain ⟨hmin, hmax⟩ := hwss.group hcap
      have hbound := h.bounds.2 hcap
      unfold lastSample SLOPE_GEN_WSS_SAMPLES
      omega
  refine hle.trans_lt ?_
  unfold realWss
  split <;> split <;> norm_num

theorem sampleLine_valid (h : Varying w) (hwss : Admissible w taskWss groupWss)
    (hi : i < SLOPE_GEN_WSS_SAMPLES) (hslope : 1 / (2 * 10 ^ 6) < measured i) :
    (sampleLine w measured i).Valid where
  slope := least_le_fl_printSlope hslope
  wss := ⟨realWss_nonneg, (sampleLine_le_lastWss h hwss hi).trans_lt (lastWss_lt h hwss)⟩

/-- **A size has a slope** exactly when it is not above the last sample. -/
theorem slopeFound_iff (h : Varying w)
    (hmeasured : ∀ i < SLOPE_GEN_WSS_SAMPLES, 1 / (2 * 10 ^ 6) < measured i)
    (hwss : Admissible w taskWss groupWss) :
    0 < getWorkloadSlope w taskWss groupWss (updateSlopes w measured) ↔
      realWss w taskWss groupWss ≤ lastWss w := by
  unfold getWorkloadSlope
  rw [updateSlopes_eq h.varies]
  constructor
  · intro hpos
    by_contra hlast
    have habove : searchSlope (realWss w taskWss groupWss) .start
        ((List.range SLOPE_GEN_WSS_SAMPLES).map (sampleLine w measured)) = -1 := by
      refine searchSlope_above (List.forall_mem_map.mpr fun i hi => ?_)
        (by norm_num [Neighbours.start])
      exact (sampleLine_le_lastWss h hwss (List.mem_range.mp hi)).trans_lt (not_le.mp hlast)
    rw [habove] at hpos
    norm_num at hpos
  · intro hlast
    have hmem {i : Nat} (hi : i < SLOPE_GEN_WSS_SAMPLES) : sampleLine w measured i ∈
        (List.range SLOPE_GEN_WSS_SAMPLES).map (sampleLine w measured) :=
      List.mem_map_of_mem (List.mem_range.mpr hi)
    apply searchSlope_pos
    · exact ⟨.inl (by norm_num [Neighbours.start]), .inl (by norm_num [Neighbours.start])⟩
    · refine List.forall_mem_map.mpr fun i hi => ?_
      have hi' := List.mem_range.mp hi
      exact sampleLine_valid h hwss hi' (hmeasured i hi')
    · exact .inr ⟨_, hmem (by norm_num), sampleLine_zero_le h hwss⟩
    · exact .inr ⟨_, hmem (by norm_num), hlast.trans (lastWss_le_sampleLine h hwss)⟩

end Sizes

end Samples

/-! ## The largest array -/

theorem varying_arrayWalk : Varying arrayWalkWorkload := ⟨by decide, by decide⟩

theorem slopeFound_arrayWalk :
    0 < getWorkloadSlope arrayWalkWorkload 0 1000000 (updateSlopes arrayWalkWorkload fun _ => 1) ↔
      realWss arrayWalkWorkload 0 1000000 ≤ lastWss arrayWalkWorkload :=
  slopeFound_iff varying_arrayWalk (by norm_num) ⟨by decide, by decide⟩

/-- The largest size has no slope. -/
theorem not_slopeFound_arrayWalk :
    Varying arrayWalkWorkload ∧ Admissible arrayWalkWorkload 0 DEFAULT_MAX_GROUP_WSS ∧
      getWorkloadSlope arrayWalkWorkload 0 DEFAULT_MAX_GROUP_WSS
        (updateSlopes arrayWalkWorkload fun _ => 1) = -1 := by
  refine ⟨varying_arrayWalk, ⟨by decide, by decide⟩, ?_⟩
  unfold getWorkloadSlope
  rw [updateSlopes_eq varying_arrayWalk.varies]
  refine searchSlope_above (List.forall_mem_map.mpr ?_) (by norm_num [Neighbours.start])
  decide

end Chronos.Slope
