import Chronos.Slope.Calibration
import Chronos.Slope.Histories
import Chronos.Slope.Measure
import Chronos.Work.Abort

/-!
# From the measured slope to the time of a job

A slope is measured, printed with six decimals, read back, interpolated and multiplied by the
usage of a job, which then executes so many iterations in chunks. If iterations take between `lo`
and `hi` nanoseconds, when the slope is measured and later on, the job takes the time that it is
to take but for the ratio of `lo` and `hi`.
-/

namespace Chronos.Slope

open Lib Taskset

/-! ## Printing a slope and reading it -/

section Print

variable {A B slope : ℚ}

/-- The slopes of a file, for measured slopes that are not below one. -/
structure Precise (A B : ℚ) (slope : ℚ) : Prop where
  lower : A * (1 - 2 ^ (-20 : ℤ)) ≤ slope
  upper : slope ≤ B * (1 + 2 ^ (-20 : ℤ))

theorem abs_printSlope_sub_le (slope : ℚ) : |printSlope slope - slope| ≤ 1 / (2 * 10 ^ 6) := by
  have hround := abs_roundEven_sub_le (slope * 10 ^ 6)
  have heq : printSlope slope - slope = (roundEven (slope * 10 ^ 6) - slope * 10 ^ 6) / 10 ^ 6 := by
    unfold printSlope
    ring
  rw [heq, abs_div, abs_of_pos (by norm_num : (0 : ℚ) < 10 ^ 6), div_le_iff₀ (by norm_num)]
  linarith

theorem precise_fl_printSlope {k : Nat} (hk : k ≤ 1000) (hA : 10 / 9 ≤ A) (hAB : A ≤ B)
    (h : Within k A B slope) : Precise A B (fl (printSlope slope)) := by
  have hlow := h.le_value hk
  have hhigh := h.value_le hk
  obtain ⟨hprint, hprint'⟩ := abs_le.mp (abs_printSlope_sub_le slope)
  have hone : 1 ≤ printSlope slope := by
    have hmargin : A * (9 / 10) + 1 / (2 * 10 ^ 6) ≤ A * (1 - 2 ^ (-43 : ℤ)) := by
      norm_num
      linarith
    have hslope := hmargin.trans hlow
    linarith
  have hnormal : (2 : ℚ) ^ (-1022 : ℤ) ≤ printSlope slope :=
    normal_of_le (k := 0) (by norm_num) (by simpa using hone)
  have hfl := mul_le_fl hnormal
  have hfl' := fl_le_mul hnormal
  constructor
  · refine le_trans ?_ hfl
    have hmargin : A * (1 - 2 ^ (-20 : ℤ)) ≤
        (A * (1 - 2 ^ (-43 : ℤ)) - 1 / (2 * 10 ^ 6)) * (1 - 2 ^ (-53 : ℤ)) := by
      norm_num
      linarith
    refine hmargin.trans (mul_le_mul_of_nonneg_right ?_ (by norm_num))
    exact (sub_le_sub_right hlow _).trans (by linarith)
  · refine hfl'.trans ?_
    have hmargin : (B * (1 + 2 ^ (-42 : ℤ)) + 1 / (2 * 10 ^ 6)) * (1 + 2 ^ (-53 : ℤ)) ≤
        B * (1 + 2 ^ (-20 : ℤ)) := by
      norm_num
      linarith
    refine le_trans (mul_le_mul_of_nonneg_right ?_ (by norm_num)) hmargin
    exact le_trans (by linarith) (add_le_add_left hhigh _)

end Print

/-! ## Looking a slope up -/

section Interpolation

variable {a b : ℚ}

/-- What is between two slopes stays there, but for its own roundings. -/
theorem interpolation_bounds {lower higher p : ℚ} (ha : 1 ≤ a) (hb : b ≤ 2 ^ 20)
    (hlower : a ≤ lower ∧ lower ≤ b) (hhigher : a ≤ higher ∧ higher ≤ b) (hp : 0 ≤ p)
    (hp1 : p ≤ 1) :
    a * (1 - 2 ^ (-29 : ℤ)) ≤ fl (lower + fl (p * fl (higher - lower))) ∧
      fl (lower + fl (p * fl (higher - lower))) ≤ b * (1 + 2 ^ (-29 : ℤ)) := by
  have hsmall : (2 : ℚ) ^ (-1075 : ℤ) ≤ 1 / 2 ^ 100 := two_zpow_le_tiny (by norm_num)
  have hunit : (2 : ℚ) ^ (-53 : ℤ) = 1 / 2 ^ 53 := by norm_num
  have hdiff : |higher - lower| ≤ 2 ^ 20 := abs_le.mpr ⟨by linarith, by linarith⟩
  have hround := abs_fl_sub_le_add (higher - lower)
  rw [hunit] at hround
  have hround' : |fl (higher - lower) - (higher - lower)| ≤ 1 / 2 ^ 32 := by
    refine hround.trans ?_
    linarith
  -- the product is off by the error of the difference and its own
  have hfl : |fl (higher - lower)| ≤ 2 ^ 20 + 1 / 2 ^ 32 := by
    have htri := abs_add_le (fl (higher - lower) - (higher - lower)) (higher - lower)
    rw [sub_add_cancel] at htri
    linarith
  have hprod : |p * fl (higher - lower)| ≤ 2 ^ 20 + 1 / 2 ^ 32 := by
    rw [abs_mul, abs_of_nonneg hp]
    exact (mul_le_of_le_one_left (abs_nonneg _) hp1).trans hfl
  have hprodRound := abs_fl_sub_le_add (p * fl (higher - lower))
  rw [hunit] at hprodRound
  have herror : |p * fl (higher - lower) - p * (higher - lower)| ≤ 1 / 2 ^ 32 := by
    rw [← mul_sub, abs_mul, abs_of_nonneg hp]
    exact (mul_le_of_le_one_left (abs_nonneg _) hp1).trans hround'
  have htotal : |fl (p * fl (higher - lower)) - p * (higher - lower)| ≤ 3 / 2 ^ 32 := by
    have htri := abs_sub_le (fl (p * fl (higher - lower))) (p * fl (higher - lower))
      (p * (higher - lower))
    linarith
  obtain ⟨htotal, htotal'⟩ := abs_le.mp htotal
  have hbetween : a ≤ lower + p * (higher - lower) ∧ lower + p * (higher - lower) ≤ b := by
    have hcomb : lower + p * (higher - lower) = (1 - p) * lower + p * higher := by ring
    rw [hcomb]
    constructor <;> nlinarith
  have hone : 1 / 2 ≤ lower + fl (p * fl (higher - lower)) := by linarith
  have hnormal : (2 : ℚ) ^ (-1022 : ℤ) ≤ lower + fl (p * fl (higher - lower)) :=
    normal_of_le (k := -1) (by norm_num) (by simpa using hone)
  constructor
  · refine le_trans ?_ (mul_le_fl hnormal)
    rw [hunit]
    norm_num
    linarith
  · refine (fl_le_mul hnormal).trans ?_
    rw [hunit]
    norm_num
    linarith

/-- The neighbours that are set are on their side and have such slopes. -/
structure Neighbours.Between (target : Int) (a b : ℚ) (s : Neighbours) : Prop where
  lower : s.lowerSlope < 0 ∨
    (a ≤ s.lowerSlope ∧ s.lowerSlope ≤ b) ∧ 0 ≤ s.lowerWss ∧ s.lowerWss < target
  higher : s.higherSlope < 0 ∨
    (a ≤ s.higherSlope ∧ s.higherSlope ≤ b) ∧ target < s.higherWss ∧ s.higherWss < 2 ^ 25

/-- A slope that is found is between those of the lines. -/
theorem searchSlope_bounds {target : Int} {s : Neighbours} {lines : List Line} (ha : 1 ≤ a)
    (hb : b ≤ 2 ^ 20) (h : s.Between target a b)
    (hlines : ∀ l ∈ lines, (a ≤ fl l.slope ∧ fl l.slope ≤ b) ∧ 0 ≤ l.wss ∧ l.wss < 2 ^ 25)
    (hfound : 0 < searchSlope target s lines) :
    a * (1 - 2 ^ (-29 : ℤ)) ≤ searchSlope target s lines ∧
      searchSlope target s lines ≤ b * (1 + 2 ^ (-29 : ℤ)) := by
  induction lines generalizing s with
  | nil =>
    rw [searchSlope] at hfound ⊢
    split at hfound
    · norm_num at hfound
    · next hset =>
      rw [if_neg hset]
      push Not at hset
      obtain ⟨hlow, hlow0, hlowt⟩ := h.lower.resolve_left (not_lt.mpr hset.2)
      obtain ⟨hhigh, hhight, hhigh25⟩ := h.higher.resolve_left (not_lt.mpr hset.1)
      obtain ⟨hp, hp1⟩ := percentage_bounds (a := target - s.lowerWss)
        (b := s.higherWss - s.lowerWss) (by omega) (by omega) (by omega)
      exact interpolation_bounds ha hb hlow hhigh hp (hp1.trans (by norm_num))
  | cons l lines ih =>
    obtain ⟨hslope, hwss⟩ := hlines l List.mem_cons_self
    have hrest := fun l' hl' => hlines l' (List.mem_cons_of_mem l hl')
    rw [searchSlope] at hfound ⊢
    split at hfound
    · next heq =>
      rw [if_pos heq]
      have ha0 : 0 ≤ a := by linarith
      have hb0 : 0 ≤ b := by linarith
      refine ⟨le_trans ?_ hslope.1, hslope.2.trans ?_⟩
      · exact mul_le_of_le_one_right ha0 (by norm_num)
      · exact le_mul_of_one_le_right hb0 (by norm_num)
    · next hne =>
      rw [if_neg hne]
      split at hfound
      · next hbelow =>
        rw [if_pos hbelow]
        exact ih ⟨.inr ⟨hslope, hwss.1, hbelow.1⟩, h.higher⟩ hrest hfound
      · next hnotBelow =>
        rw [if_neg hnotBelow]
        split at hfound
        · next habove =>
          rw [if_pos habove]
          exact ih ⟨h.lower, .inr ⟨hslope, habove.1, hwss.2⟩⟩ hrest hfound
        · next hnotAbove =>
          rw [if_neg hnotAbove]
          exact ih h hrest hfound

end Interpolation

/-! ## The time of a job -/

/-- `do_work_average`, and `do_work_wcet` as well, in binary64 arithmetic -/
def doWorkAverage (flag : Nat → Bool) (usage : Nat) (cachedSlope : ℚ) (rounds : Nat) :
    Option Work.Outcome := do
  let iterations ← Work.toUnsignedLong (fl (fl usage * cachedSlope))
  let itersPerAbortCheck ← Work.toUnsignedLong (fl (cachedSlope * Work.ABORT_CHECK_US))
  return Work.workLoop flag iterations itersPerAbortCheck rounds 0 0

/-- The time of the calls of `do_work`, where `time k` is that of the `k`-th one. -/
def elapsed (time : Nat → Nat → Nat) : (k : Nat) → List Work.Event → Nat
  | _, [] => 0
  | k, .check _ :: events => elapsed time k events
  | k, .work n :: events => time k n + elapsed time (k + 1) events

section Elapsed

open Calibration

variable {lo hi slope : ℚ} {time : Nat → Nat → Nat}

theorem elapsed_bounds (h : Speed lo hi time) (o : Work.Outcome) (k : Nat)
    (hpos : ∀ n, .work n ∈ o.events → 0 < n) :
    lo * o.total ≤ elapsed time k o.events ∧ (elapsed time k o.events : ℚ) ≤ hi * o.total := by
  obtain ⟨events, r⟩ := o
  induction events generalizing k with
  | nil => simp [elapsed]
  | cons e events ih =>
    have hrest := fun k => ih k fun n hn => hpos n (List.mem_cons_of_mem e hn)
    cases e with
    | check b => simpa [elapsed] using hrest k
    | work n =>
      have hn := hpos n List.mem_cons_self
      obtain ⟨hlow, hhigh⟩ := hrest (k + 1)
      have hnlow := h.lower k n hn
      have hnhigh := h.upper k n hn
      rw [Work.Outcome.total_cons, elapsed]
      push_cast [Work.Event.iterations_work]
      rw [mul_add, mul_add]
      exact ⟨add_le_add hnlow hlow, add_le_add hnhigh hhigh⟩

/-- No call has nothing to do, if a chunk is not empty. -/
theorem workLoop_pos {flag : Nat → Bool} {I C : Nat} (hC : 0 < C) {n : Nat} (rounds : Nat)
    (checks i : Nat) (h : .work n ∈ (Work.workLoop flag I C rounds checks i).events) : 0 < n := by
  induction rounds generalizing checks i with
  | zero => cases h
  | succ rounds ih =>
    rw [Work.workLoop] at h
    split at h
    · rcases List.mem_cons.mp h with h | h
      · cases h
      · rcases List.mem_cons.mp h with h | h
        · cases h
          exact hC
        · exact ih _ _ h
    · rcases List.mem_cons.mp h with h | h
      · cases h
      · simp only [Work.remainder, List.mem_cons, List.mem_append, reduceCtorEq, false_or,
          List.not_mem_nil, or_false] at h
        split at h
        · next hlt =>
          simp only [Bool.and_eq_true, decide_eq_true_eq] at hlt
          rw [List.mem_singleton] at h
          cases h
          omega
        · cases h

/-- What `do_work_average` asks for, and its chunks. -/
theorem doWorkAverage_eq {usage : Nat} (husage : usage ≤ 2 ^ 40) (hone : 1 ≤ slope)
    (hslope : slope ≤ 2 ^ 21) :
    ∃ I C : Nat, 0 < C ∧ C < 2 ^ 63 ∧ I < 2 ^ 63 ∧
      (∀ flag rounds, doWorkAverage flag usage slope rounds =
        some (Work.workLoop flag I C rounds 0 0)) ∧
      (I : ℚ) ≤ usage * slope * (1 + 2 ^ (-50 : ℤ)) ∧
      usage * slope * (1 - 2 ^ (-50 : ℤ)) - 1 ≤ I := by
  have hcast : (usage : ℚ) ≤ 2 ^ 40 := by exact_mod_cast husage
  have hchunk : 1 ≤ fl (slope * Work.ABORT_CHECK_US) ∧
      fl (slope * Work.ABORT_CHECK_US) ≤ 2 ^ 21 := by
    constructor
    · refine le_fl_of_le (by simpa using fl_two_zpow (e := 0) (by norm_num)) ?_
      simpa using hone
    · refine fl_le_of_le (fl_two_zpow (e := 21) (by norm_num)) ?_
      simpa using hslope
  have hwork : 0 ≤ fl (fl usage * slope) ∧ fl (fl usage * slope) ≤ 2 ^ 61 ∧
      fl (fl usage * slope) ≤ usage * slope * (1 + 2 ^ (-50 : ℤ)) ∧
      usage * slope * (1 - 2 ^ (-50 : ℤ)) ≤ fl (fl usage * slope) := by
    have hfl : 0 ≤ fl usage ∧ fl usage ≤ 2 ^ 40 :=
      ⟨fl_nonneg (Nat.cast_nonneg _), fl_le_of_le (fl_two_zpow (e := 40) (by norm_num)) hcast⟩
    have hproduct : fl usage * slope ≤ 2 ^ 61 := by
      calc fl usage * slope ≤ 2 ^ 40 * 2 ^ 21 :=
            mul_le_mul hfl.2 hslope (by linarith) (by norm_num)
        _ = 2 ^ 61 := by norm_num
    refine ⟨fl_nonneg (mul_nonneg hfl.1 (by linarith)),
      fl_le_of_le (fl_two_zpow (e := 61) (by norm_num)) hproduct, ?_⟩
    rcases Nat.eq_zero_or_pos usage with rfl | hpos
    · simp
    · have hposq : (0 : ℚ) < usage := by exact_mod_cast hpos
      have honeq : (1 : ℚ) ≤ usage := by exact_mod_cast hpos
      have husage' := (Within.exact hposq).fl (by norm_num) (normal_of_thousandth (by linarith))
      have hmul := husage'.mul (Within.exact (by linarith : 0 < slope))
      have hresult := hmul.fl (by norm_num)
        (normal_of_thousandth (le_trans (by norm_num) (one_le_mul_of_one_le_of_one_le honeq hone)))
      have hnonneg : 0 ≤ usage * slope := by positivity
      constructor
      · refine hresult.upper.trans (mul_le_mul_of_nonneg_left ?_ hnonneg)
        norm_num
      · refine le_trans (mul_le_mul_of_nonneg_left ?_ hnonneg) hresult.lower
        norm_num
  obtain ⟨hwork0, hwork61, hup, hlow⟩ := hwork
  refine ⟨⌊fl (fl usage * slope)⌋₊, ⌊fl (slope * Work.ABORT_CHECK_US)⌋₊, Nat.floor_pos.mpr hchunk.1,
    ?_, ?_, ?_, (Nat.floor_le hwork0).trans hup, ?_⟩
  · rw [Nat.floor_lt (by linarith)]
    exact lt_of_le_of_lt hchunk.2 (by norm_num)
  · rw [Nat.floor_lt hwork0]
    exact lt_of_le_of_lt hwork61 (by norm_num)
  · intro flag rounds
    rw [doWorkAverage, Work.toUnsignedLong_of_nonneg hwork0,
      Work.toUnsignedLong_of_nonneg (by linarith),
      if_pos (lt_of_le_of_lt hwork61 (by norm_num)),
      if_pos (lt_of_le_of_lt hchunk.2 (by norm_num))]
    rfl
  · have hfloor := Nat.lt_floor_add_one (fl (fl usage * slope))
    linarith

end Elapsed

/-! ## From the first to the last -/

section

open Calibration Store

/-- The number of runs for the slope of a sample. -/
def runsOf (w : Workload) : Nat :=
  if noWssVariation w then Measure.SLOPE_GEN_SAMPLES * SLOPE_GEN_WSS_SAMPLES
  else Measure.SLOPE_GEN_SAMPLES

/-- What `calc_slope_average` returns for each sample, at such a speed. -/
def Calibrated (lo hi : ℚ) (w : Workload) (measured : Nat → ℚ) : Prop :=
  ∀ k < samples w, ∃ time, Speed lo hi time ∧ calcSlopeAverage time (runsOf w) = some (measured k)

variable {lo hi : ℚ} {i : Fin NUM_WORKLOADS} {measured : Nat → ℚ} {taskWss groupWss : Nat}

theorem runsOf_bounds (w : Workload) : 0 < runsOf w ∧ runsOf w ≤ 100 := by
  unfold runsOf
  split <;> norm_num

theorem Calibrated.within {w : Workload} (h : Calibrated lo hi w measured) (hlo : 1 / 1000 ≤ lo)
    (hhi : hi ≤ 900) {k : Nat} (hk : k < samples w) :
    Within (6 + runsOf w) (1000 / hi) (1000 / lo) (measured k) := by
  obtain ⟨time, hspeed, hresult⟩ := h k hk
  obtain ⟨hpos, hle⟩ := runsOf_bounds w
  obtain ⟨slope, hslope, hwithin⟩ :=
    calcSlopeAverage_within hspeed hlo (hhi.trans (by norm_num)) hle hpos
  rwa [Option.some.inj (hresult.symm.trans hslope)]

/-- The slope that is looked up for a size is close to the speed of the machine. -/
theorem lookup_bounds (h : Calibrated lo hi (getWorkloadStruct i) measured) (hlo : 1 / 1000 ≤ lo)
    (hhi : hi ≤ 900) (hhipos : 0 < hi) (hlohi : lo ≤ hi)
    (hwss : Admissible (getWorkloadStruct i) taskWss groupWss)
    (hlast : realWss (getWorkloadStruct i) taskWss groupWss ≤ lastWss (getWorkloadStruct i)) :
    1000 / hi * (1 - 2 ^ (-20 : ℤ)) * (1 - 2 ^ (-29 : ℤ)) ≤
        Slope.getWorkloadSlope (getWorkloadStruct i) taskWss groupWss
          (Slope.updateSlopes (getWorkloadStruct i) measured) ∧
      Slope.getWorkloadSlope (getWorkloadStruct i) taskWss groupWss
          (Slope.updateSlopes (getWorkloadStruct i) measured) ≤
        1000 / lo * (1 + 2 ^ (-20 : ℤ)) * (1 + 2 ^ (-29 : ℤ)) := by
  have hlopos : 0 < lo := by linarith
  have hA : 10 / 9 ≤ 1000 / hi := by
    rw [div_le_div_iff₀ (by norm_num) hhipos]
    linarith
  have hB : 1000 / lo ≤ 10 ^ 6 := by
    rw [div_le_iff₀ hlopos]
    linarith
  have hAB : 1000 / hi ≤ 1000 / lo := div_le_div_of_nonneg_left (by norm_num) hlopos hlohi
  have hruns := (runsOf_bounds (getWorkloadStruct i)).2
  have hprecise : ∀ k < samples (getWorkloadStruct i),
      Precise (1000 / hi) (1000 / lo) (fl (printSlope (measured k))) := fun k hk =>
    precise_fl_printSlope (by omega) hA hAB (h.within hlo hhi hk)
  by_cases hi0 : i = 0
  · subst hi0
    rw [lookup_first ((realWss_burnLoop _ _).trans (realWss_burnLoop _ _).symm)]
    have hfirst := hprecise 0 (samples_pos _)
    have hpos : 0 ≤ 1000 / hi * (1 - 2 ^ (-20 : ℤ)) := mul_nonneg (by linarith) (by norm_num)
    have hpos' : 0 ≤ 1000 / lo * (1 + 2 ^ (-20 : ℤ)) := mul_nonneg (by linarith) (by norm_num)
    exact ⟨(mul_le_of_le_one_right hpos (by norm_num)).trans hfirst.lower,
      hfirst.upper.trans (le_mul_of_one_le_right hpos' (by norm_num))⟩
  · have hvarying := varying_workloads hi0
    have hsamples : samples (getWorkloadStruct i) = SLOPE_GEN_WSS_SAMPLES := by
      unfold samples
      rw [hvarying.varies]
      rfl
    have hmeasured : ∀ k < SLOPE_GEN_WSS_SAMPLES, 1 / (2 * 10 ^ 6) < measured k := by
      intro k hk
      have hlow := (h.within hlo hhi (hsamples ▸ hk)).le_value (by omega)
      refine lt_of_lt_of_le ?_ hlow
      norm_num
      linarith
    have hfound := lookup_pos hvarying hmeasured hwss hlast
    rw [updateSlopes_eq hvarying.varies] at hfound ⊢
    refine searchSlope_bounds ?_ ?_ ⟨.inl (by norm_num [Neighbours.start]),
      .inl (by norm_num [Neighbours.start])⟩ (List.forall_mem_map.mpr fun k hk => ?_) hfound
    · norm_num
      linarith
    · norm_num
      linarith
    · have hk' := List.mem_range.mp hk
      have hline := hprecise k (hsamples ▸ hk')
      exact ⟨⟨hline.lower, hline.upper⟩, (sampleLine_valid hvarying hwss hk' (hmeasured k hk')).wss⟩

/-- **A job takes the time that it is asked to take**, in microseconds, up to the ratio of the
speeds: never more, whenever it is aborted, and not less by more than an iteration if it is not. -/
theorem doWorkAverage_accurate {time : Nat → Nat → Nat} {usage : Nat}
    (h : Calibrated lo hi (getWorkloadStruct i) measured) (hspeed : Speed lo hi time)
    (hlo : 1 / 1000 ≤ lo) (hhi : hi ≤ 900)
    (hwss : Admissible (getWorkloadStruct i) taskWss groupWss)
    (hlast : realWss (getWorkloadStruct i) taskWss groupWss ≤ lastWss (getWorkloadStruct i))
    (husage : usage ≤ 2 ^ 40) :
    let slope := Slope.getWorkloadSlope (getWorkloadStruct i) taskWss groupWss
      (Slope.updateSlopes (getWorkloadStruct i) measured)
    (∀ flag rounds o, Monotone flag → doWorkAverage flag usage slope rounds = some o →
      (elapsed time 0 o.events : ℚ) ≤ 1000 * usage * (hi / lo) * (1 + 2 ^ (-19 : ℤ))) ∧
    ∃ rounds o, doWorkAverage (fun _ => false) usage slope rounds = some o ∧
      o.returned = some false ∧
      1000 * usage * (lo / hi) * (1 - 2 ^ (-19 : ℤ)) - lo ≤ elapsed time 0 o.events := by
  intro slope
  have hlopos : 0 < lo := by linarith
  have hhipos : 0 < hi := hlopos.trans_le hspeed.le
  obtain ⟨hlower, hupper⟩ := lookup_bounds h hlo hhi hhipos hspeed.le hwss hlast
  change _ ≤ slope at hlower
  change slope ≤ _ at hupper
  have hA : 10 / 9 ≤ 1000 / hi := by
    rw [div_le_div_iff₀ (by norm_num) hhipos]
    linarith
  have hB : 1000 / lo ≤ 10 ^ 6 := by
    rw [div_le_iff₀ hlopos]
    linarith
  have hone : 1 ≤ slope := by
    refine le_trans ?_ hlower
    norm_num
    linarith
  have hslope : slope ≤ 2 ^ 21 := by
    refine hupper.trans ?_
    norm_num
    linarith
  have husage0 : (0 : ℚ) ≤ usage := Nat.cast_nonneg _
  obtain ⟨I, C, hC, hC63, hI63, hrun, hIup, hIlow⟩ := doWorkAverage_eq husage hone hslope
  have hroom : (I ⌈/⌉ C) * C < 2 ^ 64 := by
    have := Work.ceilDiv_mul_lt (I := I) hC
    omega
  constructor
  · intro flag rounds o hflag ho
    rw [hrun, Option.some.injEq] at ho
    subst ho
    have hbounded := Work.workLoop_bounded (by omega) (by omega) hflag (.inl hroom) rounds (j := 0)
      (.inr (Nat.zero_mul C))
    rw [Nat.zero_mul, Nat.sub_zero] at hbounded
    have htime := (elapsed_bounds hspeed (Work.workLoop flag I C rounds 0 0)
      0 fun n hn => workLoop_pos hC rounds 0 0 hn).2
    have htotal : ((Work.workLoop flag I C rounds 0 0).total : ℚ) ≤ I := by
      exact_mod_cast hbounded.total
    calc (elapsed time 0 (Work.workLoop flag I C rounds 0 0).events : ℚ)
        ≤ hi * (Work.workLoop flag I C rounds 0 0).total := htime
      _ ≤ hi * (usage * slope * (1 + 2 ^ (-50 : ℤ))) :=
        mul_le_mul_of_nonneg_left (htotal.trans hIup) hhipos.le
      _ ≤ hi * (usage * (1000 / lo * (1 + 2 ^ (-20 : ℤ)) * (1 + 2 ^ (-29 : ℤ))) *
          (1 + 2 ^ (-50 : ℤ))) := by gcongr
      _ = 1000 * usage * (hi / lo) *
          ((1 + 2 ^ (-20 : ℤ)) * (1 + 2 ^ (-29 : ℤ)) * (1 + 2 ^ (-50 : ℤ))) := by ring
      _ ≤ 1000 * usage * (hi / lo) * (1 + 2 ^ (-19 : ℤ)) :=
        mul_le_mul_of_nonneg_left (by norm_num) (by positivity)
  · obtain ⟨rounds, htotal, hreturned⟩ := Work.workLoop_exact (by omega) (.inr hC) hroom
    refine ⟨rounds, _, hrun _ rounds, hreturned, ?_⟩
    have htime := (elapsed_bounds hspeed (Work.workLoop (fun _ => false) I C rounds 0 0)
      0 fun n hn => workLoop_pos hC rounds 0 0 hn).1
    rw [htotal] at htime
    refine le_trans ?_ htime
    calc 1000 * usage * (lo / hi) * (1 - 2 ^ (-19 : ℤ)) - lo
        ≤ 1000 * usage * (lo / hi) *
          ((1 - 2 ^ (-20 : ℤ)) * (1 - 2 ^ (-29 : ℤ)) * (1 - 2 ^ (-50 : ℤ))) - lo :=
          sub_le_sub_right (mul_le_mul_of_nonneg_left (by norm_num) (by positivity)) lo
      _ = lo * (usage * (1000 / hi * (1 - 2 ^ (-20 : ℤ)) * (1 - 2 ^ (-29 : ℤ))) *
          (1 - 2 ^ (-50 : ℤ)) - 1) := by ring
      _ ≤ lo * (usage * slope * (1 - 2 ^ (-50 : ℤ)) - 1) := by
        refine mul_le_mul_of_nonneg_left (sub_le_sub_right ?_ 1) hlopos.le
        refine mul_le_mul_of_nonneg_right ?_ (by norm_num)
        exact mul_le_mul_of_nonneg_left hlower husage0
      _ ≤ lo * I := mul_le_mul_of_nonneg_left hIlow hlopos.le

/-- A machine that takes a tenth of a microsecond for an iteration. -/
def steadyTime (_ n : Nat) : Nat := 100 * n

theorem speed_steadyTime : Speed 100 100 steadyTime :=
  ⟨fun _ _ _ => by simp [steadyTime], fun _ _ _ => by simp [steadyTime]⟩

def steadySlope (w : Workload) : ℚ := (calcSlopeAverage steadyTime (runsOf w)).getD 0

theorem calibrated_steadySlope (w : Workload) : Calibrated 100 100 w fun _ => steadySlope w := by
  intro k _
  obtain ⟨slope, hslope, -⟩ := calcSlopeAverage_within speed_steadyTime (by norm_num) (by norm_num)
    (runsOf_bounds w).2 (runsOf_bounds w).1
  exact ⟨steadyTime, speed_steadyTime, by rw [steadySlope, hslope]; rfl⟩

/-- A millisecond of the tree workload. -/
theorem doWorkAverage_accurate_steady :
    let slope := Slope.getWorkloadSlope (getWorkloadStruct 5) 0 100000
      (Slope.updateSlopes (getWorkloadStruct 5) fun _ => steadySlope (getWorkloadStruct 5))
    (∀ flag rounds o, Monotone flag → doWorkAverage flag 1000 slope rounds = some o →
      (elapsed steadyTime 0 o.events : ℚ) ≤
        1000 * (1000 : Nat) * (100 / 100) * (1 + 2 ^ (-19 : ℤ))) ∧
    ∃ rounds o, doWorkAverage (fun _ => false) 1000 slope rounds = some o ∧
      o.returned = some false ∧
      1000 * (1000 : Nat) * (100 / 100) * (1 - 2 ^ (-19 : ℤ)) - 100 ≤
        (elapsed steadyTime 0 o.events : ℚ) :=
  doWorkAverage_accurate (calibrated_steadySlope _) speed_steadyTime (by norm_num) (by norm_num)
    ⟨by decide, by decide⟩ (by decide) (by norm_num)

end

end Chronos.Slope
