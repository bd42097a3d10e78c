import Chronos.Task.Defs

/-!
# The usages of a batch

The loop of `run_test` counts from the start usage to the end usage in steps of the
interval. `validate_options` checks the start usage, and that the other two are not
zero; the sign of the interval and the size of the end usage are up to the user.
-/

namespace Chronos

/-- The largest and the smallest `int`. -/
abbrev INT_MAX : Int := 2 ^ 31 - 1
abbrev INT_MIN : Int := -2 ^ 31

/-- How the loop ends: by its condition, or in a signed overflow, which is not
defined. -/
inductive LoopEnd
  | finished
  | overflow
  deriving DecidableEq, Repr

/-- The loop of `run_test` from `cpu_usage` on, with the usages of the runs made;
there is no result if the rounds do not suffice. -/
def batchLoop (endUsage interval : Int) : Nat → Int → Option (List Int × LoopEnd)
  | 0, _ => none
  | rounds + 1, cpuUsage =>
    if cpuUsage ≤ endUsage then
      if INT_MIN ≤ cpuUsage + interval ∧ cpuUsage + interval ≤ INT_MAX then
        (batchLoop endUsage interval rounds (cpuUsage + interval)).map fun rest =>
          (cpuUsage :: rest.1, rest.2)
      else some ([cpuUsage], .overflow)
    else some ([], .finished)

/-- The number of runs of a batch. -/
def Options.numRuns (o : Options) : Nat := ((o.endUsage - o.cpuUsage) / o.interval + 1).toNat

/-- The usage of a run. -/
def Options.usage (o : Options) (k : Nat) : Int := o.cpuUsage + k * o.interval

/-- **A batch terminates and stays in range**: the loop ends by its condition, after a
run for each multiple of the interval, and every usage is one that `validate_options`
would accept and not above the end usage. -/
def BatchInRange (o : Options) : Prop :=
  ∃ rounds, batchLoop o.endUsage o.interval rounds o.cpuUsage =
      some ((List.range o.numRuns).map o.usage, .finished) ∧
    ∀ k < o.numRuns, o.usage k ≤ o.endUsage ∧ 1 ≤ o.usage k ∧ o.usage k ≤ 10000

/-- The usage of the last run, if the interval is positive. -/
def Options.lastUsage (o : Options) : Int :=
  o.cpuUsage + (o.endUsage - o.cpuUsage) / o.interval * o.interval

/-- The batch goes up, up to a usage that would be accepted, and the next one is
still an `int`. -/
def Options.BatchAscends (o : Options) : Prop :=
  0 < o.interval ∧ o.lastUsage ≤ 10000 ∧ o.lastUsage + o.interval ≤ INT_MAX

instance (o : Options) : Decidable o.BatchAscends := inferInstanceAs (Decidable (_ ∧ _))

section Loop

variable {endUsage interval cpuUsage : Int} {rounds : Nat}

/-- The loop that finishes has made its last run at most one interval before the end. -/
theorem getLast_of_finished {u : Int} {us : List Int}
    (h : batchLoop endUsage interval rounds cpuUsage = some (us, .finished))
    (hlast : us.getLast? = some u) :
    u ≤ endUsage ∧ endUsage < u + interval ∧ u + interval ≤ INT_MAX := by
  induction rounds generalizing cpuUsage us with
  | zero => cases h
  | succ rounds ih =>
    unfold batchLoop at h
    split at h
    · next hle =>
      split at h
      · next hfit =>
        obtain ⟨⟨vs, e⟩, hvs, heq⟩ := Option.map_eq_some_iff.mp h
        cases heq
        cases vs with
        | nil =>
          -- the next round was the last one
          cases hlast
          refine ⟨hle, ?_, hfit.2⟩
          cases rounds with
          | zero => cases hvs
          | succ rounds =>
            unfold batchLoop at hvs
            split at hvs
            · split at hvs
              · obtain ⟨_, _, heq⟩ := Option.map_eq_some_iff.mp hvs
                cases heq
              · cases hvs
            · next hgt => exact not_le.mp hgt
        | cons v vs =>
          rw [List.getLast?_cons_cons] at hlast
          exact ih hvs hlast
      · cases h
    · cases h
      cases hlast

/-- The loop that goes up finishes. -/
theorem batchLoop_ascending (hpos : 0 < interval) {n : Nat}
    (hle : ∀ k < n, cpuUsage + k * interval ≤ endUsage) (hend : endUsage < cpuUsage + n * interval)
    (hmin : INT_MIN ≤ cpuUsage) (hmax : cpuUsage + n * interval ≤ INT_MAX) :
    batchLoop endUsage interval (n + 1) cpuUsage =
      some ((List.range n).map fun k : Nat => cpuUsage + k * interval, .finished) := by
  induction n generalizing cpuUsage with
  | zero =>
    have hgt : ¬cpuUsage ≤ endUsage := by
      simp only [Nat.cast_zero, zero_mul, add_zero] at hend
      omega
    simp [batchLoop, hgt]
  | succ n ih =>
    have hshift : ∀ k : Nat, cpuUsage + ((k + 1 : Nat) : Int) * interval =
        cpuUsage + interval + k * interval := by
      intro k
      push_cast
      ring
    have hfirst : cpuUsage ≤ endUsage := by simpa using hle 0 (Nat.succ_pos n)
    have hn : 0 ≤ (n : Int) * interval := by positivity
    rw [hshift] at hend hmax
    have hrest := ih (fun k hk => hshift k ▸ hle (k + 1) (Nat.succ_lt_succ hk)) hend
      (by omega) hmax
    rw [batchLoop, if_pos hfirst, if_pos ⟨by omega, by omega⟩, hrest]
    simp only [Option.map_some, List.range_succ_eq_map, List.map_cons, List.map_map,
      Function.comp_def, Nat.succ_eq_add_one, hshift, Nat.cast_zero, zero_mul, add_zero]

end Loop

/-! ## When it does -/

variable {o : Options}

/-- An accepted batch starts in range and not above its end. -/
structure Options.Started (o : Options) : Prop where
  pos : 1 ≤ o.cpuUsage
  le : o.cpuUsage ≤ 10000
  le_end : o.cpuUsage ≤ o.endUsage

theorem Options.Accepted.started (h : o.Accepted) : (validateOptions o).2.Started := by
  simp only [Options.Accepted, validateOptions, List.append_eq_nil_iff, ite_eq_right_iff,
    List.cons_ne_nil, imp_false, not_or, not_and, not_le, not_lt] at h
  obtain ⟨⟨⟨⟨-, hend⟩, hcpu, hle⟩, -⟩, -⟩ := h
  cases hb : o.batchMode with
  | true =>
    simp only [validateOptions, hb, if_true]
    exact ⟨hcpu, hle, hend hb⟩
  | false =>
    simp only [validateOptions, hb, Bool.false_eq_true, if_false]
    exact ⟨hcpu, hle, le_refl _⟩

theorem Options.numRuns_pos (hpos : 0 < o.interval) (h : o.Started) :
    (o.numRuns : Int) = (o.endUsage - o.cpuUsage) / o.interval + 1 := by
  have hdiv := Int.ediv_nonneg (sub_nonneg.mpr h.le_end) hpos.le
  unfold Options.numRuns
  omega

theorem batchInRange_of_ascends (h : o.Started) (hasc : o.BatchAscends) : BatchInRange o := by
  obtain ⟨hpos, hlast, hfit⟩ := hasc
  have hruns := o.numRuns_pos hpos h
  have hmod := Int.emod_add_mul_ediv (o.endUsage - o.cpuUsage) o.interval
  have hmod_nonneg := Int.emod_nonneg (o.endUsage - o.cpuUsage) hpos.ne'
  have hmod_lt := Int.emod_lt_of_pos (o.endUsage - o.cpuUsage) hpos
  have hlastUsage : o.lastUsage = o.cpuUsage + ((o.numRuns : Int) - 1) * o.interval := by
    rw [hruns]
    unfold Options.lastUsage
    ring
  have hlast_le : o.lastUsage ≤ o.endUsage := by
    unfold Options.lastUsage
    rw [Int.mul_comm]
    omega
  have husage : ∀ k < o.numRuns, o.usage k ≤ o.lastUsage := by
    intro k hk
    rw [hlastUsage]
    unfold Options.usage
    have : (k : Int) * o.interval ≤ ((o.numRuns : Int) - 1) * o.interval :=
      mul_le_mul_of_nonneg_right (by omega) hpos.le
    omega
  have hnext : o.cpuUsage + (o.numRuns : Int) * o.interval = o.lastUsage + o.interval := by
    rw [hlastUsage]
    ring
  refine ⟨o.numRuns + 1, ?_, ?_⟩
  · apply batchLoop_ascending hpos
    · exact fun k hk => (husage k hk).trans hlast_le
    · rw [hnext]
      unfold Options.lastUsage
      rw [Int.mul_comm]
      omega
    · exact le_trans (by norm_num) h.pos
    · rw [hnext]
      exact hfit
  · intro k hk
    have hk0 : 0 ≤ (k : Int) * o.interval := by positivity
    have hstart := h.pos
    refine ⟨(husage k hk).trans hlast_le, ?_, (husage k hk).trans hlast⟩
    unfold Options.usage
    omega

theorem ascends_of_batchInRange (h : o.Started) (hrange : BatchInRange o) : o.BatchAscends := by
  obtain ⟨rounds, hloop, hall⟩ := hrange
  cases hn : o.numRuns with
  | zero =>
    -- the loop makes a first run
    rw [hn] at hloop
    cases rounds with
    | zero => cases hloop
    | succ rounds =>
      rw [batchLoop, if_pos h.le_end] at hloop
      split at hloop
      · obtain ⟨_, _, heq⟩ := Option.map_eq_some_iff.mp hloop
        cases heq
      · cases hloop
  | succ m =>
    have hlast := getLast_of_finished (u := o.usage m) hloop (by simp [hn, List.range_succ])
    have hpos : 0 < o.interval := by omega
    have hruns := o.numRuns_pos hpos h
    have hm : (m : Int) = (o.endUsage - o.cpuUsage) / o.interval := by omega
    have hlastUsage : o.lastUsage = o.usage m := by
      unfold Options.lastUsage Options.usage
      rw [hm]
    refine ⟨hpos, ?_, ?_⟩
    · rw [hlastUsage]
      exact (hall m (by omega)).2.2
    · rw [hlastUsage]
      exact hlast.2.2

/-- **A batch terminates and stays in range** exactly when there is no batch mode, or
it goes up and stops early enough. -/
theorem batchInRange_iff (h : o.Accepted) :
    BatchInRange (validateOptions o).2 ↔ o.batchMode = false ∨ o.BatchAscends := by
  have hstart := h.started
  have hiff : BatchInRange (validateOptions o).2 ↔ (validateOptions o).2.BatchAscends :=
    ⟨ascends_of_batchInRange hstart, batchInRange_of_ascends hstart⟩
  rw [hiff]
  cases hb : o.batchMode with
  | true => simp [validateOptions, hb]
  | false =>
    have hle := hstart.le
    simp only [validateOptions, hb, Bool.false_eq_true, if_false, true_or, iff_true] at hle ⊢
    refine ⟨by norm_num, ?_, ?_⟩
    · simpa [Options.lastUsage] using hle
    · simp only [Options.lastUsage, INT_MAX] at hle ⊢
      omega

/-- A batch from the usage 100 to the given end. -/
def sampleBatch (endUsage interval : Int) : Options where
  cpuUsage := 100
  runTime := 1
  scheduler := 1
  tasksetFilename := some "tasksets/5t_nl"
  workload := 0
  enableHua := false
  locking := NO_LOCKING
  csLength := 0
  batchMode := true
  endUsage := endUsage
  interval := interval

theorem batchInRange_sampleBatch :
    (sampleBatch 200 50).Accepted ∧ BatchInRange (validateOptions (sampleBatch 200 50)).2 :=
  ⟨by decide, (batchInRange_iff (by decide)).mpr (by decide)⟩

/-- With a negative interval the usage runs away from the end. -/
theorem not_batchInRange_descending :
    (sampleBatch 200 (-50)).Accepted ∧
      ¬BatchInRange (validateOptions (sampleBatch 200 (-50))).2 := by
  refine ⟨by decide, fun hrange => ?_⟩
  have hasc := ascends_of_batchInRange (Options.Accepted.started (by decide)) hrange
  exact absurd hasc (by decide)

end Chronos
