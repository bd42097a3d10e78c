import Chronos.Task.Usage

/-!
# When the jobs of a task are released

The deadline of a job is the release of the next one. A job that meets it sleeps
for the whole microseconds that are left; a job that is aborted does not sleep,
and neither does one that ends in the last microsecond.
-/

namespace Chronos

open Trace

/-! ## Times -/

theorem clock_nsec_lt (ns : Nat) : (clock ns).nsec < BILLION := Nat.mod_lt _ (by norm_num)

/-- The borrow and the truncated division give the floor of the difference. -/
theorem timespecSubtractUs_eq {x y : Timespec} (hx : x.nsec < BILLION) (hy : y.nsec < BILLION) :
    timespecSubtractUs x y = ((x.toNs : Int) - y.toNs) / THOUSAND := by
  unfold timespecSubtractUs Timespec.toNs
  simp only [BILLION, MILLION, THOUSAND] at hx hy ⊢
  split
  · next h =>
    rw [Int.tdiv_eq_ediv_of_nonneg (by omega)]
    omega
  · next h =>
    rw [Int.tdiv_eq_ediv_of_nonneg (by omega)]
    omega

/-- The deadline is exact as long as its offset in nanoseconds does not wrap. -/
theorem toNs_findJobDeadline {start : Timespec} {t : Task} (hk : t.numReleases + 1 < 2 ^ 32)
    (hfit : start.nsec + (t.numReleases + 1) * t.period * THOUSAND < 2 ^ 64) :
    (t.findJobDeadline start).toNs =
      start.toNs + (t.numReleases + 1) * t.period * THOUSAND := by
  unfold Task.findJobDeadline Timespec.toNs
  dsimp only
  rw [Nat.mod_eq_of_lt hk]
  generalize (t.numReleases + 1) * t.period = offset at hfit ⊢
  simp only [BILLION, THOUSAND] at hfit ⊢
  rw [Nat.mod_eq_of_lt (a := offset) (by omega), Nat.mod_eq_of_lt (a := offset * 1000) (by omega),
    Nat.mod_eq_of_lt hfit]
  omega

theorem findJobDeadline_nsec_lt (start : Timespec) (t : Task) :
    (t.findJobDeadline start).nsec < BILLION := Nat.mod_lt _ (by norm_num)

/-! ## A job -/

namespace Task

/-- `clear_task_stats` -/
def clearTaskStats (t : Task) : Task :=
  { t with numReleases := 0, numAborted := 0, deadlinesMet := 0, utilityAccrued := 0,
           maxTardiness := 0 }

/-- Whether a job that runs to its end is aborted. -/
def jobAborted (T : Test) (env : JobEnv) (t : Task) : Bool :=
  (criticalSections T.options.locking env t).aborted || env.unlockedAborts

end Task

open Chronos.Task

variable {T : Test} {env : JobEnv} {t t' : Task} {g now k : Nat}

theorem aborted_andThen {a b : Trace} (h : a.crashed = false) :
    (a.andThen b).aborted = (a.aborted || b.aborted) := by
  simp [andThen, h]

theorem aborted_segment (h : (segment T env t).crashed = false) :
    (segment T env t).aborted = jobAborted T env t := by
  rw [crashed_segment] at h
  have hhua : (setupHuaAbortHandler T t).aborted = false := by
    unfold setupHuaAbortHandler
    split <;> rfl
  unfold segment jobAborted
  rw [aborted_andThen (by simp [h]), aborted_andThen (by simp [h]), aborted_andThen (by simp),
    aborted_andThen (by simp), hhua]
  simp [emit, doWork]

/-- The critical sections do not depend on the statistics. -/
theorem criticalSections_clearTaskStats (locking : Nat) :
    criticalSections locking env t.clearTaskStats = criticalSections locking env t := by
  rw [criticalSections_eq, criticalSections_eq]
  rfl

theorem jobAborted_congr (h : t.clearTaskStats = t'.clearTaskStats) :
    jobAborted T env t = jobAborted T env t' := by
  unfold jobAborted
  rw [← criticalSections_clearTaskStats, h, criticalSections_clearTaskStats]

theorem period_congr (h : t.clearTaskStats = t'.clearTaskStats) : t.period = t'.period :=
  calc t.period = t.clearTaskStats.period := rfl
    _ = t'.clearTaskStats.period := by rw [h]
    _ = t'.period := rfl

/-- A counted job changes nothing but the statistics, and not the number of releases. -/
theorem exists_tabulate_eq (deadline endTime : Timespec) (aborted : Bool) :
    ∃ numAborted deadlinesMet utilityAccrued maxTardiness,
      (tabulate deadline endTime aborted t).1 =
        { t with numAborted, deadlinesMet, utilityAccrued, maxTardiness } := by
  unfold tabulate
  dsimp only
  split
  · exact ⟨_, _, _, _, rfl⟩
  · split
    · exact ⟨_, _, _, _, rfl⟩
    · split <;> exact ⟨_, _, _, _, rfl⟩

theorem clearTaskStats_tabulate (deadline endTime : Timespec) (aborted : Bool) :
    (tabulate deadline endTime aborted t).1.clearTaskStats = t.clearTaskStats := by
  obtain ⟨_, _, _, _, h⟩ := exists_tabulate_eq (t := t) deadline endTime aborted
  rw [h]
  rfl

theorem numReleases_tabulate (deadline endTime : Timespec) (aborted : Bool) :
    (tabulate deadline endTime aborted t).1.numReleases = t.numReleases := by
  obtain ⟨_, _, _, _, h⟩ := exists_tabulate_eq (t := t) deadline endTime aborted
  rw [h]

/-- The sleep after a job, in terms of the instants of its deadline and its end. -/
theorem sleep_tabulate {deadline endTime : Timespec} (aborted : Bool)
    (hd : deadline.nsec < BILLION) (he : endTime.nsec < BILLION)
    (hfit : deadline.toNs < endTime.toNs + 2 ^ 32 * THOUSAND) :
    (tabulate deadline endTime aborted t).2 =
      if aborted then 0 else (deadline.toNs - endTime.toNs) / THOUSAND := by
  unfold tabulate
  rw [timespecSubtractUs_eq hd he]
  generalize deadline.toNs = D at hfit ⊢
  generalize endTime.toNs = E at hfit ⊢
  simp only [THOUSAND] at hfit ⊢
  split
  · rfl
  · split
    · dsimp only
      split <;> omega
    · split <;> (dsimp only; omega)

/-! ## The release of the next job -/

/-- The job enters its segment at its release or later. -/
def ReleasedOnTime (g : Nat) (t : Task) (e : Entry) : Prop :=
  g + e.job * t.period * THOUSAND ≤ e.time

instance (e : Entry) : Decidable (ReleasedOnTime g t e) := inferInstanceAs (Decidable (_ ≤ _))

/-- What keeps the job after `e` from being early. Either the way from the end of
`e` to the next segment reaches the next release without a sleep, or `e` is not
aborted, ends a microsecond or more before that release, and the way and the
delay of the wake-up make up for the part of a microsecond the sleep leaves out. -/
def Waits (T : Test) (env : Nat → JobEnv) (g : Nat) (t : Task) (e : Entry) : Prop :=
  let next := g + (e.job + 1) * t.period * THOUSAND
  let endTime := e.time + (env e.job).executing
  let way := (env e.job).leaving + (env (e.job + 1)).entering
  next ≤ endTime + way ∨
    (jobAborted T (env e.job) t = false ∧ endTime + THOUSAND ≤ next ∧
      (next - endTime) % THOUSAND ≤ way + (env e.job).waking)

/-- The instant a counted job returns. -/
theorem taskInstance_returns (hg : T.globalStartTime = clock g)
    (hnc : (segment T env t).crashed = false) (hk : t.numReleases + 1 < 2 ^ 32)
    (hfit : (t.numReleases + 1) * t.period < 2 ^ 32) (hnow : g ≤ now) :
    (taskInstance T env true now t).2.2 =
      now + env.entering + env.executing + env.leaving +
        if jobAborted T env t = false ∧
            now + env.entering + env.executing + THOUSAND ≤
              g + (t.numReleases + 1) * t.period * THOUSAND then
          (g + (t.numReleases + 1) * t.period * THOUSAND -
            (now + env.entering + env.executing)) / THOUSAND * THOUSAND + env.waking
        else 0 := by
  have hnsec : T.globalStartTime.nsec < BILLION := by
    rw [hg]
    exact clock_nsec_lt g
  have hwide : T.globalStartTime.nsec + (t.numReleases + 1) * t.period * THOUSAND < 2 ^ 64 := by
    simp only [BILLION, THOUSAND] at hnsec ⊢
    omega
  have hdeadline : (t.findJobDeadline T.globalStartTime).toNs =
      g + (t.numReleases + 1) * t.period * THOUSAND := by
    rw [toNs_findJobDeadline hk hwide, hg, toNs_clock]
  have hsleep := sleep_tabulate (t := t) (segment T env t).aborted
    (findJobDeadline_nsec_lt T.globalStartTime t)
    (clock_nsec_lt (now + env.entering + env.executing)) (by
      rw [hdeadline, toNs_clock]
      simp only [THOUSAND]
      omega)
  rw [hdeadline, toNs_clock, aborted_segment hnc] at hsleep
  unfold taskInstance
  simp only [if_true, aborted_segment hnc, hsleep]
  generalize g + (t.numReleases + 1) * t.period * THOUSAND = D
  generalize now + env.entering + env.executing = E
  simp only [THOUSAND]
  cases jobAborted T env t
  · by_cases h : E + 1000 ≤ D
    · simp [h]
      omega
    · simp [h]
      omega
  · simp

/-- **One job after another**: the next job is on time exactly when the job before
it waits. -/
theorem releasedOnTime_next (hg : T.globalStartTime = clock g) (envs : Nat → JobEnv)
    (hnc : (segment T (envs k) t).crashed = false) (hk : t.numReleases = k)
    (hlt : k + 1 < 2 ^ 32) (hfit : (k + 1) * t.period < 2 ^ 32) (hnow : g ≤ now) :
    ReleasedOnTime g t
        ⟨k + 1, (taskInstance T (envs k) true now t).2.2 + (envs (k + 1)).entering⟩ ↔
      Waits T envs g t ⟨k, now + (envs k).entering⟩ := by
  subst hk
  rw [taskInstance_returns hg hnc hlt hfit hnow]
  unfold ReleasedOnTime Waits
  dsimp only
  generalize g + (t.numReleases + 1) * t.period * THOUSAND = D
  generalize now + (envs t.numReleases).entering + (envs t.numReleases).executing = E
  simp only [THOUSAND]
  split
  · next h =>
    obtain ⟨hab, hle⟩ := h
    simp only [hab, hle, true_and]
    omega
  · next h =>
    constructor
    · intro hD
      exact .inl (by omega)
    · rintro (hD | ⟨hab, hle, -⟩)
      · omega
      · exact absurd ⟨hab, hle⟩ h

/-! ## The releases of a run -/

theorem Waits.congr {envs : Nat → JobEnv} (h : t.clearTaskStats = t'.clearTaskStats) (e : Entry) :
    Waits T envs g t e ↔ Waits T envs g t' e := by
  unfold Waits
  rw [jobAborted_congr h, period_congr h]

theorem ReleasedOnTime.congr (h : t.clearTaskStats = t'.clearTaskStats) (e : Entry) :
    ReleasedOnTime g t e ↔ ReleasedOnTime g t' e := by
  unfold ReleasedOnTime
  rw [period_congr h]

/-- The first job of the loop enters as soon as it is reached. -/
theorem releaseLoop_head (T : Test) (envs : Nat → JobEnv) (left now : Nat) (t : Task) :
    (releaseLoop T envs left now t).1 = [] ∨ ∃ es, (releaseLoop T envs left now t).1 =
      ⟨t.numReleases, now + (envs t.numReleases).entering⟩ :: es := by
  cases left with
  | zero =>
    unfold releaseLoop
    split
    · exact .inr ⟨[], rfl⟩
    · exact .inl rfl
  | succ left =>
    right
    unfold releaseLoop
    dsimp only
    split
    · exact ⟨[], rfl⟩
    · exact ⟨_, rfl⟩

/-- The jobs after the first are on time exactly when the jobs before the last wait. -/
theorem releaseLoop_onTime_iff (hg : T.globalStartTime = clock g) (envs : Nat → JobEnv) {u : Task}
    (left : Nat) (now : Nat) (t : Task) (hsame : t.clearTaskStats = u.clearTaskStats)
    (hcount : t.numReleases + left < 2 ^ 32)
    (hfit : (t.numReleases + left) * u.period < 2 ^ 32) (hnow : g ≤ now) :
    (∀ e ∈ (releaseLoop T envs left now t).1.tail, ReleasedOnTime g u e) ↔
      ∀ e ∈ (releaseLoop T envs left now t).1.dropLast, Waits T envs g u e := by
  induction left generalizing now t with
  | zero =>
    unfold releaseLoop
    split <;> simp
  | succ left ih =>
    unfold releaseLoop
    dsimp only
    split
    · simp
    · next hcrash =>
      have hnc : (segment T (envs t.numReleases) t).crashed = false :=
        Bool.not_eq_true _ ▸ hcrash
      have hfirst : (t.numReleases + 1) * t.period < 2 ^ 32 := by
        rw [period_congr hsame]
        exact lt_of_le_of_lt (Nat.mul_le_mul_right _ (by omega)) hfit
      have hnext := releasedOnTime_next hg envs hnc rfl (by omega) hfirst hnow
      rw [ReleasedOnTime.congr hsame, Waits.congr hsame] at hnext
      set now' := (taskInstance T (envs t.numReleases) true now t).2.2 with hnow'
      set t₁ : Task := { (taskInstance T (envs t.numReleases) true now t).2.1 with
        numReleases := (taskInstance T (envs t.numReleases) true now t).2.1.numReleases + 1 }
        with ht₁
      have hnum : t₁.numReleases = t.numReleases + 1 := by
        rw [ht₁]
        exact congrArg (· + 1) (numReleases_tabulate _ _ _)
      have hsame₁ : t₁.clearTaskStats = u.clearTaskStats := by
        rw [← hsame, ht₁]
        exact clearTaskStats_tabulate (t := t) _ _ _
      have hge : g ≤ now' := by
        rw [hnow', taskInstance_returns hg hnc (by omega) hfirst hnow]
        omega
      have hrest := ih now' t₁ hsame₁ (by rw [hnum]; omega)
        (by rw [hnum]; convert hfit using 2; omega) hge
      rcases releaseLoop_head T envs left now' t₁ with hnil | ⟨es, hcons⟩
      · simp [hnil]
      · rw [hcons] at hrest ⊢
        rw [hnum] at hrest ⊢
        simp only [List.tail_cons, List.mem_cons, forall_eq_or_imp, List.dropLast_cons_cons] at hrest ⊢
        rw [hrest, hnext]

theorem calculateReleases_fits {o : Options} (h : t.calculateReleases o = some t') :
    t'.maxReleases < 2 ^ 32 ∧ t'.maxReleases * t'.period < 2 ^ 32 := by
  unfold calculateReleases at h
  dsimp only at h
  split at h
  · cases h
  · cases h
    have hmod : (o.runTime * MILLION % 2 ^ 32).toNat < 2 ^ 32 := by omega
    generalize (o.runTime * MILLION % 2 ^ 32).toNat = runtime at hmod
    refine ⟨Nat.mod_lt _ (by norm_num), ?_⟩
    calc runtime / t.period % 2 ^ 32 * t.period ≤ runtime / t.period * t.period :=
          Nat.mul_le_mul_right _ (Nat.mod_le _ _)
      _ ≤ runtime := Nat.div_mul_le_self _ _
      _ < 2 ^ 32 := hmod

/-- **Every job is released on time** exactly when every job that another one
follows waits for it. -/
theorem releasedOnTime_iff (o : Options) (numLocks : Int) (lockTime g delay : Nat)
    (envs : Nat → JobEnv) (h : t.calculateReleases o = some t') :
    (∀ e ∈ (startTask ⟨o, numLocks, lockTime, clock g⟩ envs (g + delay) t').1,
        ReleasedOnTime g t' e) ↔
      ∀ e ∈ (startTask ⟨o, numLocks, lockTime, clock g⟩ envs (g + delay) t').1.dropLast,
        Waits ⟨o, numLocks, lockTime, clock g⟩ envs g t' e := by
  obtain ⟨hcount, hfit⟩ := calculateReleases_fits h
  unfold startTask
  have hrun := releaseLoop_onTime_iff (T := ⟨o, numLocks, lockTime, clock g⟩) rfl envs (u := t')
    t'.maxReleases (g + delay) { t' with numReleases := 0 } rfl (by simpa using hcount)
    (by simpa using hfit) (Nat.le_add_right g delay)
  rcases releaseLoop_head ⟨o, numLocks, lockTime, clock g⟩ envs t'.maxReleases (g + delay)
      { t' with numReleases := 0 } with hnil | ⟨es, hcons⟩
  · simp [hnil]
  · rw [← hrun, hcons]
    -- the first job is never early
    have hfirst : ReleasedOnTime g t' ⟨0, g + delay + (envs 0).entering⟩ := by
      simp only [ReleasedOnTime]
      omega
    simp [hfirst]

/-! ## A task whose first job is aborted -/

/-- A task released every half second, in a run of one second. -/
def halfSecondTask : Task :=
  { sampleTask [] with period := 500000, periodTs := ⟨0, 500000000⟩, maxReleases := 2 }

def plainOptions : Options := { nestedOptions with locking := NO_LOCKING, csLength := 0 }

/-- Jobs of 1 µs, all aborted. -/
def abortedJob : JobEnv := ⟨0, fun _ => true, fun _ => false, true, 0, 1000, 0, 0⟩

/-- The second job enters its segment a microsecond after the first one. -/
theorem not_releasedOnTime_aborted :
    plainOptions.Accepted ∧ halfSecondTask.calculateReleases plainOptions = some halfSecondTask ∧
      ¬∀ e ∈ (startTask ⟨plainOptions, 0, 0, clock 0⟩ (fun _ => abortedJob) 0 halfSecondTask).1,
        ReleasedOnTime 0 halfSecondTask e := by
  decide

/-- The same jobs, not aborted. -/
def completedJob : JobEnv := { abortedJob with unlockedAborts := false }

theorem releasedOnTime_iff_aborted :
    ((∀ e ∈ (startTask ⟨plainOptions, 0, 0, clock 0⟩ (fun _ => completedJob) (0 + 0)
        halfSecondTask).1, ReleasedOnTime 0 halfSecondTask e) ∧
      ∀ e ∈ (startTask ⟨plainOptions, 0, 0, clock 0⟩ (fun _ => completedJob) (0 + 0)
        halfSecondTask).1.dropLast,
        Waits ⟨plainOptions, 0, 0, clock 0⟩ (fun _ => completedJob) 0 halfSecondTask e) ∧
    (¬∀ e ∈ (startTask ⟨plainOptions, 0, 0, clock 0⟩ (fun _ => abortedJob) (0 + 0)
        halfSecondTask).1, ReleasedOnTime 0 halfSecondTask e) ∧
      ¬∀ e ∈ (startTask ⟨plainOptions, 0, 0, clock 0⟩ (fun _ => abortedJob) (0 + 0)
        halfSecondTask).1.dropLast,
        Waits ⟨plainOptions, 0, 0, clock 0⟩ (fun _ => abortedJob) 0 halfSecondTask e := by
  have hcalculate : halfSecondTask.calculateReleases plainOptions = some halfSecondTask := by
    decide
  have hwaits : ∀ e ∈ (startTask ⟨plainOptions, 0, 0, clock 0⟩ (fun _ => completedJob) (0 + 0)
      halfSecondTask).1.dropLast,
      Waits ⟨plainOptions, 0, 0, clock 0⟩ (fun _ => completedJob) 0 halfSecondTask e := by
    unfold Waits
    decide
  have hnot : ¬∀ e ∈ (startTask ⟨plainOptions, 0, 0, clock 0⟩ (fun _ => abortedJob) (0 + 0)
      halfSecondTask).1.dropLast,
      Waits ⟨plainOptions, 0, 0, clock 0⟩ (fun _ => abortedJob) 0 halfSecondTask e := by
    unfold Waits
    decide
  exact ⟨⟨(releasedOnTime_iff _ _ _ _ _ _ hcalculate).mpr hwaits, hwaits⟩,
    mt (releasedOnTime_iff _ _ _ _ _ _ hcalculate).mp hnot, hnot⟩

end Chronos
