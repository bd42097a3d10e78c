import Chronos.Task.Statistics

/-!
# Deadlines and release counts

`find_job_deadline` carries nanoseconds into seconds, `set_period_ts` divides
microseconds; both are exact while the nanoseconds fit 63 bits. How many jobs are
released is the whole part of the run time over the period, which `struct task` keeps in
an `int`.
-/

namespace Chronos

open Lib Chronos.Task

/-! ## Deadlines -/

/-- The deadline of the `k`-th job. -/
def Task.jobDeadline (start : Timespec) (t : Task) (k : Nat) : Timespec :=
  ({ t with numReleases := k } : Task).findJobDeadline start

section Deadline

variable {start : Timespec} {t : Task} {k : Nat}

theorem toNs_jobDeadline (hk : k + 1 < 2 ^ 32)
    (hfit : start.nsec + (k + 1) * t.period * THOUSAND < 2 ^ 63) :
    (t.jobDeadline start k).toNs = start.toNs + (k + 1) * t.period * THOUSAND :=
  toNs_findJobDeadline (t := { t with numReleases := k }) hk (by dsimp only; omega)

theorem nsec_setPeriodTs_lt (t : Task) : t.setPeriodTs.periodTs.nsec < BILLION := by
  have hmod := Nat.mod_lt t.period (show 0 < MILLION by norm_num)
  have hsub : t.period * THOUSAND - t.period / MILLION * MILLION * THOUSAND =
      t.period % MILLION * THOUSAND := by
    rw [← Nat.sub_mul, ← Nat.mod_eq_sub_div_mul]
  unfold setPeriodTs
  dsimp only
  rw [hsub]
  refine (Nat.mod_le _ _).trans_lt ?_
  simp only [MILLION, THOUSAND, BILLION] at hmod ⊢
  omega

theorem toNs_setPeriodTs (t : Task) : t.setPeriodTs.periodTs.toNs = t.period * THOUSAND := by
  unfold setPeriodTs Timespec.toNs
  simp only [MILLION, THOUSAND, BILLION]
  omega

/-- **Deadlines are exact**, and they are as far apart as `period_ts` says. -/
theorem deadlines_exact (hk : k + 1 < 2 ^ 32)
    (hfit : start.nsec + (k + 1) * t.period * THOUSAND < 2 ^ 63) :
    ((t.jobDeadline start k).nsec < BILLION ∧
      (t.jobDeadline start k).toNs = start.toNs + (k + 1) * t.period * THOUSAND) ∧
    (t.setPeriodTs.periodTs.nsec < BILLION ∧
      t.setPeriodTs.periodTs.toNs = t.period * THOUSAND) ∧
    ∀ j, j + 1 = k → (t.jobDeadline start k).toNs =
      (t.jobDeadline start j).toNs + t.setPeriodTs.periodTs.toNs := by
  refine ⟨⟨findJobDeadline_nsec_lt _ _, toNs_jobDeadline hk hfit⟩,
    ⟨nsec_setPeriodTs_lt t, toNs_setPeriodTs t⟩, ?_⟩
  intro j hj
  subst hj
  have hsucc : (j + 1 + 1) * t.period * THOUSAND =
      (j + 1) * t.period * THOUSAND + t.period * THOUSAND := by
    rw [Nat.add_mul, Nat.add_mul, Nat.one_mul]
  have hfit' : start.nsec + (j + 1) * t.period * THOUSAND < 2 ^ 63 := by
    rw [hsucc] at hfit
    exact (Nat.add_le_add_left (Nat.le_add_right _ _) _).trans_lt hfit
  have hbefore : (t.jobDeadline start j).toNs = start.toNs + (j + 1) * t.period * THOUSAND :=
    toNs_jobDeadline ((Nat.lt_succ_self _).trans hk) hfit'
  rw [toNs_jobDeadline hk hfit, hbefore, toNs_setPeriodTs t, hsucc, Nat.add_assoc]

/-- A task released every 1.5 s. -/
def longPeriodTask : Task := { halfSecondTask with period := 1500000 }

/-- Its first two deadlines, from a start late in a second. -/
theorem deadlines_exact_second :
    ((longPeriodTask.jobDeadline ⟨7, 900000000⟩ 1).nsec < BILLION ∧
      (longPeriodTask.jobDeadline ⟨7, 900000000⟩ 1).toNs = 10900000000) ∧
    (longPeriodTask.setPeriodTs.periodTs.nsec < BILLION ∧
      longPeriodTask.setPeriodTs.periodTs.toNs = 1500000000) ∧
    (longPeriodTask.jobDeadline ⟨7, 900000000⟩ 1).toNs =
      (longPeriodTask.jobDeadline ⟨7, 900000000⟩ 0).toNs +
        longPeriodTask.setPeriodTs.periodTs.toNs := by
  have hfit : Timespec.nsec ⟨7, 900000000⟩ + (1 + 1) * longPeriodTask.period * THOUSAND < 2 ^ 63 :=
    by decide
  obtain ⟨hdeadline, hperiod, hnext⟩ := deadlines_exact (by decide) hfit
  exact ⟨hdeadline, hperiod, hnext 0 rfl⟩

end Deadline

/-! ## Jobs that crash -/

/-- The job uses an entry of `my_locks` that is not there: it locks nothing, and `last`
holds an index behind the array. -/
def JobCrashes (o : Options) (env : JobEnv) (t : Task) : Prop :=
  o.locking &&& NESTED_LOCKING ≠ 0 ∧ ¬(0 < t.numMyLocks ∧ env.lockOk 0 = true) ∧
    (t.numMyLocks : Int) ≤ env.last

instance (o : Options) (env : JobEnv) (t : Task) : Decidable (JobCrashes o env t) :=
  inferInstanceAs (Decidable (_ ∧ _))

section Crash

variable {T : Test} {env : JobEnv} {t : Task}

theorem crashed_unlockLoop_iff (locks : List Int) (n : Nat) :
    (unlockLoop locks n).crashed = true ↔ locks.length < n := by
  by_cases hn : n ≤ locks.length
  · simp [(unlockLoop_spec locks n hn).1, hn]
  · obtain ⟨n, rfl⟩ : ∃ m, n = m + 1 := ⟨n - 1, by omega⟩
    have hnone : locks[n]? = none := List.getElem?_eq_none (by omega)
    simp only [unlockLoop, hnone, Trace.crash, true_iff]
    omega

theorem crashed_segment_iff : (segment T env t).crashed = true ↔ JobCrashes T.options env t := by
  rw [crashed_segment, criticalSections_eq, JobCrashes]
  by_cases hl : T.options.locking &&& NESTED_LOCKING = 0
  · simp [hl]
  · simp only [hl, ne_eq, not_false_eq_true, if_true, true_and]
    rw [numMyLocks, ← acquired_pos_iff]
    by_cases hpos : 0 < acquired env 0 t.myLocks
    · simp [(balanced_nestedLocking hpos).1, hpos]
    · have hlast : (lockLoop env 0 t.myLocks env.last).2 = env.last := by
        rw [last_lockLoop, if_pos (by omega)]
      simp only [nestedLocking, hlast, Trace.crashed_andThen, crashed_lockLoop,
        Trace.crashed_doWork, Bool.or_false, Bool.false_or, crashed_unlockLoop_iff]
      omega

theorem JobCrashes.congr {t' : Task} {o : Options} (h : t.clearTaskStats = t'.clearTaskStats) :
    JobCrashes o env t ↔ JobCrashes o env t' := by
  have hlocks : t.myLocks = t'.myLocks := (congrArg Task.myLocks h :)
  unfold JobCrashes numMyLocks
  rw [hlocks]

/-- The task in the next round of the loop, after a counted job. -/
def nextTask (T : Test) (env : JobEnv) (now : Nat) (t : Task) : Task :=
  { (taskInstance T env true now t).2.1 with
    numReleases := (taskInstance T env true now t).2.1.numReleases + 1 }

theorem clearTaskStats_nextTask (now : Nat) :
    (nextTask T env now t).clearTaskStats = t.clearTaskStats :=
  clearTaskStats_tabulate (t := t) _ _ _

theorem numReleases_nextTask (now : Nat) :
    (nextTask T env now t).numReleases = t.numReleases + 1 :=
  congrArg (· + 1) (numReleases_tabulate (t := t) _ _ _)

/-- The jobs that are left after the first one. -/
theorem jobCrashes_nextTask {envs : Nat → JobEnv} {o : Options} (now k : Nat) :
    JobCrashes o (envs ((nextTask T env now t).numReleases + k)) (nextTask T env now t) ↔
      JobCrashes o (envs (t.numReleases + (k + 1))) t := by
  rw [JobCrashes.congr (clearTaskStats_nextTask now), numReleases_nextTask, Nat.add_assoc,
    Nat.add_comm 1]

/-- The counted jobs all have an outcome exactly when none of them crashes. -/
theorem countedJobs_isSome_iff {envs : Nat → JobEnv} {left now : Nat} :
    (∃ xs, countedJobs T envs left now t = some xs) ↔
      ∀ k < left, ¬JobCrashes T.options (envs (t.numReleases + k)) t := by
  induction left generalizing now t with
  | zero => simp [countedJobs]
  | succ left ih =>
    unfold countedJobs
    dsimp only
    have hcrash : (taskInstance T (envs t.numReleases) true now t).1.crashed = true ↔
        JobCrashes T.options (envs t.numReleases) t := crashed_segment_iff
    have hrest : (∃ xs, countedJobs T envs left
        (taskInstance T (envs t.numReleases) true now t).2.2
        (nextTask T (envs t.numReleases) now t) = some xs) ↔
        ∀ k < left, ¬JobCrashes T.options (envs (t.numReleases + (k + 1))) t := by
      simp only [ih, jobCrashes_nextTask]
    by_cases hc : JobCrashes T.options (envs t.numReleases) t
    · rw [if_pos (hcrash.mpr hc)]
      constructor
      · rintro ⟨xs, hxs⟩
        cases hxs
      · intro hall
        exact absurd hc (hall 0 (by omega))
    · rw [if_neg (mt hcrash.mp hc)]
      constructor
      · rintro ⟨xs, hxs⟩ k hk
        obtain ⟨ys, hys, -⟩ := Option.map_eq_some_iff.mp hxs
        cases k with
        | zero => exact hc
        | succ k => exact hrest.mp ⟨ys, hys⟩ k (by omega)
      · intro hall
        obtain ⟨ys, hys⟩ := hrest.mpr fun k hk => hall (k + 1) (by omega)
        exact ⟨_, Option.map_eq_some_iff.mpr ⟨ys, hys, rfl⟩⟩

/-- The jobs of the loop, by their numbers, when none crashes. -/
theorem jobs_releaseLoop {envs : Nat → JobEnv} {left now : Nat}
    (h : ∀ k < left, ¬JobCrashes T.options (envs (t.numReleases + k)) t) :
    (releaseLoop T envs left now t).1.map Entry.job =
      List.range' t.numReleases (left + if t.extraRelease then 1 else 0) := by
  induction left generalizing now t with
  | zero =>
    unfold releaseLoop
    split
    · simp
    · simp
  | succ left ih =>
    unfold releaseLoop
    dsimp only
    have hcrash : (taskInstance T (envs t.numReleases) true now t).1.crashed = true ↔
        JobCrashes T.options (envs t.numReleases) t := crashed_segment_iff
    have hextra : (nextTask T (envs t.numReleases) now t).extraRelease = t.extraRelease :=
      (congrArg Task.extraRelease (clearTaskStats_nextTask now) :)
    have hrest : (releaseLoop T envs left (taskInstance T (envs t.numReleases) true now t).2.2
        (nextTask T (envs t.numReleases) now t)).1.map Entry.job =
        List.range' (t.numReleases + 1) (left + if t.extraRelease then 1 else 0) := by
      rw [ih, numReleases_nextTask, hextra]
      intro k hk
      rw [jobCrashes_nextTask]
      exact h (k + 1) (by omega)
    rw [if_neg (mt hcrash.mp (h 0 (by omega))), Nat.add_right_comm, List.range'_succ]
    exact congrArg (t.numReleases :: ·) hrest

end Crash

/-! ## Release counts -/

/-- The run time in microseconds. -/
def Options.runtime (o : Options) : Nat := (o.runTime * MILLION).toNat

/-- `max_releases`, which is an `int`. -/
def Task.storedReleases (t : Task) : Int := toInt t.maxReleases

/-- The releases of a task that is set up for a run fit the run time: their number is the
whole part of the quotient, as many jobs are counted, and a job that is not counted
follows them if the quotient is not whole. -/
structure Task.FitsWindow (t : Task) (T : Test) (envs : Nat → JobEnv) (now : Nat) : Prop where
  lower : t.storedReleases * t.period ≤ T.options.runTime * MILLION
  upper : T.options.runTime * MILLION < (t.storedReleases + 1) * t.period
  extra : t.extraRelease = true ↔ ¬(t.period : Int) ∣ T.options.runTime * MILLION
  counted : ∃ xs, countedJobs T envs t.maxReleases now { t with numReleases := 0 } = some xs ∧
    (xs.length : Int) = t.storedReleases
  jobs : (startTask T envs now t).1.map Entry.job =
    List.range' 0 (t.storedReleases.toNat + if t.extraRelease then 1 else 0)
  within : ∀ k : Nat, (k : Int) < t.storedReleases →
    ((t.jobDeadline T.globalStartTime k).toNs : Int) ≤
      T.globalStartTime.toNs + T.options.runTime * BILLION
  after : t.extraRelease = true →
    (T.globalStartTime.toNs + T.options.runTime * BILLION : Int) <
      (t.jobDeadline T.globalStartTime t.storedReleases.toNat).toNs

/-- The deadlines of all jobs of a task fit 63 bits of nanoseconds. -/
def DeadlinesFit (o : Options) (start : Nat) (t : Task) : Prop :=
  (clock start).nsec + (o.runtime / t.period + 1) * t.period * THOUSAND < 2 ^ 63

instance (o : Options) (start : Nat) (t : Task) : Decidable (DeadlinesFit o start t) :=
  inferInstanceAs (Decidable (_ < _))

section Window

variable {undefined : ℚ → Nat} {numLocks : Int} {lockTime : Nat} {o₀ o : Options} {t u : Task}
  {r : TaskRun}

theorem runtime_of_accepted (ho : o₀.Accepted) (hrun : o.runTime = o₀.runTime) :
    (o.runtime : Int) = o.runTime * MILLION ∧ o.runtime < 2 ^ 32 - 1 := by
  have hbounds : 0 < o₀.runTime ∧ o₀.runTime ≤ 3600 := by
    simp only [Options.Accepted, validateOptions, List.append_eq_nil_iff, ite_eq_right_iff,
      reduceCtorEq, imp_false, not_or, not_le, not_lt] at ho
    exact ho.1.2
  unfold Options.runtime
  simp only [MILLION]
  omega

/-- What a run sets up. -/
theorem prepareTask_of_accepted (undefined : ℚ → Nat) (ho : o₀.Accepted)
    (hrun : o.runTime = o₀.runTime) (hperiod : 1 ≤ t.period) :
    ∃ u, prepareTask undefined o t = some u ∧ u.period = t.period ∧ u.myLocks = t.myLocks ∧
      u.maxReleases = o.runtime / t.period ∧
      (u.extraRelease = true ↔ o.runtime % t.period ≠ 0) := by
  obtain ⟨-, hlt⟩ := runtime_of_accepted ho hrun
  have hmod : (o.runTime * MILLION % 2 ^ 32).toNat = o.runtime := by
    obtain ⟨hcast, -⟩ := runtime_of_accepted ho hrun
    rw [← hcast]
    omega
  have hquot : o.runtime / t.period % 2 ^ 32 = o.runtime / t.period :=
    Nat.mod_eq_of_lt ((Nat.div_le_self _ _).trans_lt (by omega))
  have hprepare : prepareTask undefined o t = some { t.clearTaskStats.setLockUsage undefined o with
      maxReleases := o.runtime / t.period % 2 ^ 32
      extraRelease := decide (o.runtime % t.period ≠ 0) } := by
    unfold prepareTask calculateReleases
    rw [if_neg (show ¬((t.clearTaskStats.setLockUsage undefined o).period = 0) from
      Nat.ne_of_gt hperiod), hmod]
    rfl
  exact ⟨_, hprepare, rfl, rfl, hquot, decide_eq_true_iff⟩

theorem toNs_jobDeadline_of_fits {start k : Nat} (hlt : o.runtime < 2 ^ 32 - 1)
    (hfit : DeadlinesFit o start t) (hk : k ≤ o.runtime / t.period) :
    (t.jobDeadline (clock start) k).toNs =
      (clock start).toNs + (k + 1) * t.period * THOUSAND := by
  have hle : (k + 1) * t.period * THOUSAND ≤ (o.runtime / t.period + 1) * t.period * THOUSAND :=
    Nat.mul_le_mul_right _ (Nat.mul_le_mul_right _ (Nat.succ_le_succ hk))
  have hquot := Nat.div_le_self o.runtime t.period
  unfold DeadlinesFit at hfit
  exact toNs_jobDeadline (by omega) ((Nat.add_le_add_left hle _).trans_lt hfit)

/-- **The releases of a task fit the run time** exactly when their number fits an `int`
and none of the counted jobs crashes. -/
theorem fitsWindow_iff (numLocks : Int) (lockTime : Nat) (ho : o₀.Accepted)
    (hrun : o.runTime = o₀.runTime) (hperiod : 1 ≤ u.period)
    (hmax : u.maxReleases = o.runtime / u.period)
    (hextra : u.extraRelease = true ↔ o.runtime % u.period ≠ 0)
    (hfit : DeadlinesFit o r.start u) :
    u.FitsWindow ⟨o, numLocks, lockTime, clock r.start⟩ r.env (r.start + r.delay) ↔
      o.runtime < 2 ^ 31 * u.period ∧
        ∀ k < o.runtime / u.period, ¬JobCrashes o (r.env k) u := by
  obtain ⟨hcast, hlt⟩ := runtime_of_accepted ho hrun
  have hcrash : (∃ xs, countedJobs ⟨o, numLocks, lockTime, clock r.start⟩ r.env u.maxReleases
      (r.start + r.delay) { u with numReleases := 0 } = some xs) ↔
      ∀ k < u.maxReleases, ¬JobCrashes o (r.env (0 + k)) u := countedJobs_isSome_iff
  simp only [Nat.zero_add] at hcrash
  constructor
  · intro h
    obtain ⟨xs, hxs, -⟩ := h.counted
    have hupper := h.upper
    refine ⟨?_, fun k hk => ?_⟩
    · have hstored : u.storedReleases + 1 ≤ 2 ^ 31 := by
        unfold storedReleases toInt
        have := Int.bmod_lt (x := u.maxReleases) (m := 2 ^ 32) (by norm_num)
        omega
      have hle : (u.storedReleases + 1) * u.period ≤ 2 ^ 31 * (u.period : Int) :=
        mul_le_mul_of_nonneg_right hstored (Int.natCast_nonneg _)
      rw [← hcast] at hupper
      exact_mod_cast hupper.trans_le hle
    · exact hcrash.mp ⟨xs, hxs⟩ k (hmax ▸ hk)
  · rintro ⟨hint, hnc⟩
    obtain ⟨xs, hxs⟩ := hcrash.mpr fun k hk => hnc k (hmax ▸ hk)
    have hq : o.runtime / u.period < 2 ^ 31 := Nat.div_lt_of_lt_mul (by rwa [Nat.mul_comm])
    have hdiv := Nat.div_add_mod o.runtime u.period
    have hmod := Nat.mod_lt o.runtime hperiod
    have hns : o.runTime * BILLION = (o.runtime * THOUSAND : Nat) := by
      push_cast
      rw [hcast]
      simp only [MILLION]
      omega
    have hstored : u.storedReleases = (o.runtime / u.period : Nat) := by
      unfold storedReleases
      rw [hmax]
      exact toInt_eq_self (by omega) (by omega)
    have hupper : o.runtime < (o.runtime / u.period + 1) * u.period := by
      rw [Nat.add_mul, Nat.one_mul, Nat.mul_comm _ u.period]
      omega
    refine ⟨?_, ?_, ?_, ⟨xs, hxs, ?_⟩, ?_, ?_, ?_⟩
    · rw [hstored, ← hcast]
      exact_mod_cast Nat.div_mul_le_self o.runtime u.period
    · rw [hstored, ← hcast]
      exact_mod_cast hupper
    · rw [hextra, ← hcast, Int.natCast_dvd_natCast, Nat.dvd_iff_mod_eq_zero]
    · rw [hstored, length_countedJobs hxs, hmax]
    · have hjobs : (startTask ⟨o, numLocks, lockTime, clock r.start⟩ r.env (r.start + r.delay)
          u).1.map Entry.job =
          List.range' 0 (u.maxReleases + if u.extraRelease then 1 else 0) := by
        refine jobs_releaseLoop (t := { u with numReleases := 0 }) fun k hk => ?_
        rw [Nat.zero_add]
        exact hnc k (hmax ▸ hk)
      rw [hjobs, hstored, hmax, Int.toNat_natCast]
    · intro k hk
      rw [hstored] at hk
      have hk' : k + 1 ≤ o.runtime / u.period := by exact_mod_cast hk
      have hle : (k + 1) * u.period * THOUSAND ≤ o.runtime * THOUSAND :=
        Nat.mul_le_mul_right _ ((Nat.mul_le_mul_right _ hk').trans (Nat.div_mul_le_self _ _))
      rw [toNs_jobDeadline_of_fits hlt hfit ((Nat.le_succ k).trans hk'), hns]
      exact_mod_cast Nat.add_le_add_left hle _
    · intro _
      have hlt' := Nat.mul_lt_mul_of_pos_right hupper (show 0 < THOUSAND by norm_num)
      rw [hstored, Int.toNat_natCast, toNs_jobDeadline_of_fits hlt hfit le_rfl, hns]
      exact_mod_cast Nat.add_lt_add_left hlt' _

end Window

/-! ## The releases of a run -/

/-- The releases of every task of a run fit the run time, and `run` adds up their
numbers as an `int`. -/
def ReleasesFit (undefined : ℚ → Nat) (numLocks : Int) (lockTime : Nat) (o : Options)
    (rs : Nat → TaskRun) (ts : List Task) : Prop :=
  (∀ (i : Nat) (t : Task), ts[i]? = some t → ∃ u, prepareTask undefined o t = some u ∧
    u.FitsWindow ⟨o, numLocks, lockTime, clock (rs i).start⟩ (rs i).env
      ((rs i).start + (rs i).delay)) ∧
  ∃ ts' sys, run undefined numLocks lockTime o rs ts = some (ts', sys) ∧
    sys.totalRelease = toInt (ts'.map Task.storedReleases).sum

section Releases

variable {undefined : ℚ → Nat} {numLocks : Int} {lockTime : Nat} {o₀ o : Options}
  {rs : Nat → TaskRun} {ts : List Task}

theorem totalRelease_foldl (ts : List Task) (s : SysStats) :
    toInt (ts.foldl accumulate s).totalRelease =
      toInt (s.totalRelease + (ts.map Task.storedReleases).sum) := by
  induction ts generalizing s with
  | nil => simp
  | cons t ts ih =>
    rw [List.foldl_cons, ih, List.map_cons, List.sum_cons, ← add_assoc]
    exact Int.bmod_add_bmod

theorem toInt_totalRelease_accumulate (ts : List Task) :
    toInt (ts.foldl accumulate clearCounters).totalRelease =
      (ts.foldl accumulate clearCounters).totalRelease := by
  rw [foldl_field SysStats.totalRelease (fun n t => toInt (n + t.storedReleases)) fun _ _ _ => rfl]
  induction ts using List.reverseRecOn with
  | nil => rfl
  | append_singleton ts t _ =>
    rw [List.foldl_append]
    exact Int.bmod_bmod

theorem run_of_accepted (undefined : ℚ → Nat) (numLocks : Int) (lockTime : Nat)
    (rs : Nat → TaskRun) (ho : o₀.Accepted) (hrun : o.runTime = o₀.runTime)
    (hts : ∀ t ∈ ts, 1 ≤ t.period) :
    ∃ ts', runTasks undefined numLocks lockTime o rs ts = some ts' := by
  induction ts generalizing rs with
  | nil => exact ⟨[], rfl⟩
  | cons t ts ih =>
    obtain ⟨u, hu, -⟩ := prepareTask_of_accepted undefined ho hrun (hts t List.mem_cons_self)
    obtain ⟨ts', hts'⟩ := ih (fun i => rs (i + 1)) fun t ht => hts t (List.mem_cons_of_mem _ ht)
    rw [runTasks, runTask, hu, hts']
    exact ⟨_, rfl⟩

/-- **The release counts fit the run window** exactly when each of them fits an `int` and
no counted job crashes. -/
theorem releasesFit_iff (ho : o₀.Accepted) (hrun : o.runTime = o₀.runTime)
    (hts : ∀ (i : Nat) (t : Task), ts[i]? = some t →
      1 ≤ t.period ∧ DeadlinesFit o (rs i).start t) :
    ReleasesFit undefined numLocks lockTime o rs ts ↔
      ∀ (i : Nat) (t : Task), ts[i]? = some t → o.runtime < 2 ^ 31 * t.period ∧
        ∀ k < o.runtime / t.period, ¬JobCrashes o ((rs i).env k) t := by
  have htask : ∀ (i : Nat) (t : Task), ts[i]? = some t →
      ((∃ u, prepareTask undefined o t = some u ∧
        u.FitsWindow ⟨o, numLocks, lockTime, clock (rs i).start⟩ (rs i).env
          ((rs i).start + (rs i).delay)) ↔
        o.runtime < 2 ^ 31 * t.period ∧
          ∀ k < o.runtime / t.period, ¬JobCrashes o ((rs i).env k) t) := by
    intro i t ht
    obtain ⟨hpos, hfit⟩ := hts i t ht
    obtain ⟨u, hu, hperiod, hlocks, hmax, hextra⟩ :=
      prepareTask_of_accepted undefined ho hrun hpos
    rw [← hperiod] at hmax hextra hpos ⊢
    have hfit' : DeadlinesFit o (rs i).start u := by
      unfold DeadlinesFit at hfit ⊢
      rwa [hperiod]
    have hcrash (env : JobEnv) : JobCrashes o env u ↔ JobCrashes o env t := by
      unfold JobCrashes numMyLocks
      rw [hlocks]
    have hiff := fitsWindow_iff numLocks lockTime ho hrun hpos hmax hextra hfit'
    simp only [hcrash] at hiff
    rw [← hiff, hu]
    constructor
    · rintro ⟨v, hv, h⟩
      cases hv
      exact h
    · exact fun h => ⟨u, rfl, h⟩
  constructor
  · rintro ⟨h, -⟩ i t ht
    exact (htask i t ht).mp (h i t ht)
  · intro h
    refine ⟨fun i t ht => (htask i t ht).mpr (h i t ht), ?_⟩
    have hperiods : ∀ t ∈ ts, 1 ≤ t.period := by
      intro t ht
      obtain ⟨i, hi⟩ := List.mem_iff_getElem?.mp ht
      exact (hts i t hi).1
    obtain ⟨ts', hts'⟩ := run_of_accepted undefined numLocks lockTime rs ho hrun hperiods
    refine ⟨ts', _, by rw [run, hts']; rfl, ?_⟩
    rw [← toInt_totalRelease_accumulate, totalRelease_foldl]
    exact congrArg toInt (zero_add _)

end Releases

/-! ## A period of a microsecond -/

/-- Accepted options with the longest run time. -/
def hourOptions : Options := { plainOptions with runTime := 3600 }

/-- In an hour it is released 3600000000 times, which is no `int`. -/
def microsecondTask : Task := { halfSecondTask with period := 1, periodTs := ⟨0, 1000⟩ }

theorem not_releasesFit_microsecond :
    hourOptions.Accepted ∧ DeadlinesFit hourOptions 0 microsecondTask ∧
      ¬ReleasesFit (fun _ => 0) 0 0 hourOptions (fun _ => ⟨0, 0, fun _ => quickJob⟩)
        [microsecondTask] := by
  refine ⟨by decide, by decide, ?_⟩
  rintro ⟨h, -⟩
  obtain ⟨u, hu, hfit⟩ := h 0 microsecondTask rfl
  obtain ⟨v, hv, hperiod, -, hmax, -⟩ := prepareTask_of_accepted (fun _ => 0)
    (o := hourOptions) (t := microsecondTask) (show hourOptions.Accepted by decide) rfl (by decide)
  cases hu.symm.trans hv
  have hupper := hfit.upper
  unfold Task.storedReleases at hupper
  rw [hmax, hperiod] at hupper
  revert hupper
  decide

theorem releasesFit_iff_halfSecond :
    ReleasesFit (fun _ => 0) 0 0 plainOptions (fun _ => ⟨0, 0, fun _ => quickJob⟩)
        [halfSecondTask] ↔
      ∀ (i : Nat) (t : Task), [halfSecondTask][i]? = some t →
        plainOptions.runtime < 2 ^ 31 * t.period ∧
          ∀ k < plainOptions.runtime / t.period, ¬JobCrashes plainOptions quickJob t :=
  releasesFit_iff (show plainOptions.Accepted by decide) rfl (by
    intro i t ht
    cases i with
    | zero =>
      cases ht
      decide
    | succ i => cases ht)

end Chronos
