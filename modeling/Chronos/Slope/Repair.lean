import Chronos.Slope.Coverage

/-!
# An interrupted generation of slopes

`update_slopes` clears the file and then appends a sample at a time. `check_slopes` takes
the file for complete when it gives a slope for the smallest sizes, and this is the first
sample: a file that was cut off after it is never completed.
-/

namespace Chronos.Slope

open Lib Taskset

/-- The file after the first `k` samples of `update_slopes`. -/
def interruptedSlopes (w : Workload) (measured : Nat → ℚ) (k : Nat) : List Line :=
  (List.range k).foldl (fun file i =>
    putWorkloadSlope w (measured i) (sampleWss w.minTaskWss w.maxTaskWss i)
      (sampleWss w.minGroupWss w.maxGroupWss i) file) []

/-- `check_slopes`, for a file that can be opened, where `measured` is what
`update_slopes` measures if it is called. -/
def checkSlopes (w : Workload) (force : Bool) (measured : Nat → ℚ) (file : List Line) :
    List Line :=
  let averageSlope := getWorkloadSlope w DEFAULT_MIN_TASK_WSS DEFAULT_MIN_GROUP_WSS file
  if averageSlope ≤ 0 ∨ force = true then updateSlopes w measured else file

/-- The file has the line of every sample. -/
def Complete (w : Workload) (file : List Line) : Prop :=
  file.map Line.wss = (List.range SLOPE_GEN_WSS_SAMPLES).map fun i =>
    realWss w (sampleWss w.minTaskWss w.maxTaskWss i) (sampleWss w.minGroupWss w.maxGroupWss i)

section Repair

variable {w : Workload} {measured : Nat → ℚ} {k : Nat}

theorem interruptedSlopes_eq :
    interruptedSlopes w measured k = (List.range k).map (sampleLine w measured) :=
  foldl_putWorkloadSlope _ []

theorem complete_interruptedSlopes_iff :
    Complete w (interruptedSlopes w measured k) ↔ k = SLOPE_GEN_WSS_SAMPLES := by
  have hwss : (interruptedSlopes w measured k).map Line.wss = (List.range k).map fun i =>
      realWss w (sampleWss w.minTaskWss w.maxTaskWss i)
        (sampleWss w.minGroupWss w.maxGroupWss i) := by
    rw [interruptedSlopes_eq, List.map_map]
    rfl
  unfold Complete
  rw [hwss]
  constructor
  · intro heq
    simpa using congrArg List.length heq
  · rintro rfl
    rfl

theorem complete_updateSlopes (h : noWssVariation w = false) :
    Complete w (updateSlopes w measured) := by
  rw [updateSlopes_eq h, ← interruptedSlopes_eq]
  exact complete_interruptedSlopes_iff.mpr rfl

/-! ## The lookup in an interrupted file -/

/-- What prints as zero or less is read back as such. -/
theorem fl_printSlope_nonpos {slope : ℚ} (h : slope ≤ 1 / (2 * 10 ^ 6)) :
    fl (printSlope slope) ≤ 0 := by
  have hround : roundEven (slope * 10 ^ 6) ≤ 0 := roundEven_nonpos (by linarith)
  have hround' : (roundEven (slope * 10 ^ 6) : ℚ) ≤ 0 := by exact_mod_cast hround
  exact fl_nonpos (div_nonpos_of_nonpos_of_nonneg hround' (by norm_num))

/-- There is no slope for a size below all lines. -/
theorem searchSlope_below {target : Int} {s : Neighbours} {lines : List Line}
    (hlines : ∀ l ∈ lines, target < l.wss) (hs : s.lowerSlope < 0) :
    searchSlope target s lines = -1 := by
  induction lines generalizing s with
  | nil => rw [searchSlope, if_pos (.inr hs)]
  | cons l lines ih =>
    have hl := hlines l List.mem_cons_self
    have hrest := fun l' hl' => hlines l' (List.mem_cons_of_mem l hl')
    rw [searchSlope, if_neg (by omega), if_neg (by omega)]
    split
    · exact ih hrest hs
    · exact ih hrest hs

/-- The smallest sizes of the workload are those that `check_slopes` looks up. -/
def SmallestIsDefault (w : Workload) : Prop :=
  realWss w w.minTaskWss w.minGroupWss = realWss w DEFAULT_MIN_TASK_WSS DEFAULT_MIN_GROUP_WSS

instance : Decidable (SmallestIsDefault w) := inferInstanceAs (Decidable (_ = _))

theorem le_sampleLine (h : Varying w) (hmin : Admissible w w.minTaskWss w.minGroupWss) {i : Nat}
    (hi : i < SLOPE_GEN_WSS_SAMPLES) :
    realWss w w.minTaskWss w.minGroupWss ≤ (sampleLine w measured i).wss := by
  apply realWss_le
  · intro hcap
    exact (sampleWss_bounds (hmin.task hcap).2 (h.bounds.1 hcap) hi).1
  · intro hcap
    exact (sampleWss_bounds (hmin.group hcap).2 (h.bounds.2 hcap) hi).1

theorem sampleLine_zero_wss (h : Varying w) (hmin : Admissible w w.minTaskWss w.minGroupWss) :
    (sampleLine w measured 0).wss = realWss w w.minTaskWss w.minGroupWss :=
  (sampleLine_zero_le h hmin).antisymm (le_sampleLine h hmin (by norm_num))

/-- The bounds of a workload are not below the sizes that are looked up. -/
theorem Varying.default_le (h : Varying w) :
    realWss w DEFAULT_MIN_TASK_WSS DEFAULT_MIN_GROUP_WSS ≤
      realWss w w.minTaskWss w.minGroupWss := by
  have hvalid := h.valid
  unfold workloadWssValidBounds at hvalid
  apply realWss_le <;> grind

/-- What `check_slopes` looks up in an interrupted file. -/
theorem getWorkloadSlope_interruptedSlopes (h : Varying w)
    (hmin : Admissible w w.minTaskWss w.minGroupWss) (hk : k ≤ SLOPE_GEN_WSS_SAMPLES) :
    getWorkloadSlope w DEFAULT_MIN_TASK_WSS DEFAULT_MIN_GROUP_WSS
        (interruptedSlopes w measured k) =
      if k ≠ 0 ∧ SmallestIsDefault w then fl (printSlope (measured 0)) else -1 := by
  unfold getWorkloadSlope
  rw [interruptedSlopes_eq]
  split
  · next hfirst =>
    obtain ⟨hk0, hdefault⟩ := hfirst
    obtain ⟨n, rfl⟩ := Nat.exists_eq_succ_of_ne_zero hk0
    rw [List.range_succ_eq_map, List.map_cons, searchSlope,
      if_pos ((sampleLine_zero_wss h hmin).trans hdefault)]
    rfl
  · next hother =>
    refine searchSlope_below (List.forall_mem_map.mpr fun i hi => ?_)
      (by norm_num [Neighbours.start])
    have hi' := List.mem_range.mp hi
    have hne : ¬SmallestIsDefault w := fun hdefault => hother ⟨by omega, hdefault⟩
    calc realWss w DEFAULT_MIN_TASK_WSS DEFAULT_MIN_GROUP_WSS
        < realWss w w.minTaskWss w.minGroupWss := lt_of_le_of_ne h.default_le (Ne.symm hne)
      _ ≤ (sampleLine w measured i).wss := le_sampleLine h hmin (by omega)

/-! ## When it is repaired -/

/-- **An interrupted file is repaired** exactly when it is empty or complete already, or
the lookup fails: the workload's smallest size is not the default one, or the first
slope prints as zero or less. -/
theorem repaired_iff {measured' : Nat → ℚ} (h : Varying w)
    (hmin : Admissible w w.minTaskWss w.minGroupWss) (hk : k ≤ SLOPE_GEN_WSS_SAMPLES) :
    Complete w (checkSlopes w false measured' (interruptedSlopes w measured k)) ↔
      k = 0 ∨ k = SLOPE_GEN_WSS_SAMPLES ∨ ¬SmallestIsDefault w ∨
        measured 0 ≤ 1 / (2 * 10 ^ 6) := by
  have hcomplete : Complete w (updateSlopes w measured') := complete_updateSlopes h.varies
  have hkept : Complete w (interruptedSlopes w measured k) ↔ k = SLOPE_GEN_WSS_SAMPLES :=
    complete_interruptedSlopes_iff
  simp only [checkSlopes, getWorkloadSlope_interruptedSlopes h hmin hk, Bool.false_eq_true,
    or_false]
  by_cases hfirst : k ≠ 0 ∧ SmallestIsDefault w
  · rw [if_pos hfirst]
    obtain ⟨hk0, hdefault⟩ := hfirst
    rcases le_or_gt (measured 0) (1 / (2 * 10 ^ 6)) with hle | hgt
    · rw [if_pos (fl_printSlope_nonpos hle)]
      tauto
    · have hpos : ¬fl (printSlope (measured 0)) ≤ 0 := by
        have hleast := least_le_fl_printSlope hgt
        exact not_le.mpr (lt_of_lt_of_le (by norm_num) hleast)
      rw [if_neg hpos, hkept]
      have hnot := hgt.not_ge
      tauto
  · rw [if_neg hfirst, if_pos (by norm_num)]
    tauto

theorem repaired_iff_arrayWalk :
    Complete arrayWalkWorkload
        (checkSlopes arrayWalkWorkload false (fun _ => 1)
          (interruptedSlopes arrayWalkWorkload (fun _ => 1) 3)) ↔
      3 = 0 ∨ 3 = SLOPE_GEN_WSS_SAMPLES ∨ ¬SmallestIsDefault arrayWalkWorkload ∨
        (1 : ℚ) ≤ 1 / (2 * 10 ^ 6) :=
  repaired_iff varying_arrayWalk ⟨by decide, by decide⟩ (by norm_num)

/-- Cut off after the first sample, the file keeps one line. -/
theorem not_repaired_arrayWalk :
    ¬Complete arrayWalkWorkload
      (checkSlopes arrayWalkWorkload false (fun _ => 1)
        (interruptedSlopes arrayWalkWorkload (fun _ => 1) 1)) := by
  have hlookup : getWorkloadSlope arrayWalkWorkload DEFAULT_MIN_TASK_WSS DEFAULT_MIN_GROUP_WSS
      (interruptedSlopes arrayWalkWorkload (fun _ => 1) 1) = fl (printSlope 1) :=
    getWorkloadSlope_interruptedSlopes varying_arrayWalk ⟨by decide, by decide⟩ (by norm_num)
  have hleast : least ≤ fl (printSlope 1) := least_le_fl_printSlope (by norm_num)
  have hpos : ¬fl (printSlope 1) ≤ 0 := not_le.mpr (lt_of_lt_of_le (by norm_num) hleast)
  rw [checkSlopes, hlookup, if_neg (by simpa using hpos), complete_interruptedSlopes_iff]
  norm_num

end Repair

end Chronos.Slope
