import Chronos.Lib.Scanf
import Chronos.Task.Release

/-!
# The statistics of a run

Each counted job has an outcome: it is aborted or it ends, before its deadline or
after it. The counters of a task sum up the outcomes of its jobs in one run, and the
system counters sum up those of the tasks.
-/

namespace Chronos

open Lib Chronos.Task

/-! ## Outcomes -/

/-- What became of a counted job. Its deadline and its end are instants. -/
structure Outcome where
  aborted : Bool
  deadline : Nat
  endTime : Nat
  deriving DecidableEq, Repr

namespace Outcome

/-- The job ended at its deadline or before. -/
def met (x : Outcome) : Bool := !x.aborted && decide (x.endTime ≤ x.deadline)

def missed (x : Outcome) : Bool := !x.aborted && decide (x.deadline < x.endTime)

/-- The whole microseconds from the end to the deadline, rounded down. -/
def tardiness (x : Outcome) : Int := ((x.deadline : Int) - x.endTime) / THOUSAND

/-- The tardiness of the jobs that are not aborted. -/
def tardinesses (xs : List Outcome) : List Int := (xs.filter (!·.aborted)).map tardiness

theorem tardiness_nonneg_iff (x : Outcome) : 0 ≤ x.tardiness ↔ x.endTime ≤ x.deadline := by
  simp only [tardiness, THOUSAND]
  omega

/-- Every job is aborted, meets its deadline or misses it. -/
theorem length_eq (xs : List Outcome) :
    xs.countP aborted + xs.countP met + xs.countP missed = xs.length := by
  induction xs with
  | nil => rfl
  | cons x xs ih =>
    have hx : (if x.aborted then 1 else 0) + (if x.met then 1 else 0) +
        (if x.missed then 1 else 0) = 1 := by
      cases ha : x.aborted with
      | true => simp [met, missed, ha]
      | false =>
        by_cases h : x.endTime ≤ x.deadline
        · simp [met, missed, ha, h, Nat.not_lt.mpr h]
        · simp [met, missed, ha, h, Nat.not_le.mp h]
    simp only [List.countP_cons, List.length_cons]
    omega

end Outcome

/-- A job adds its outcome to the counters of its task. -/
def Task.record (t : Task) (x : Outcome) : Task :=
  { t with
    numAborted := t.numAborted + if x.aborted then 1 else 0
    deadlinesMet := t.deadlinesMet + if x.met then 1 else 0
    utilityAccrued := t.utilityAccrued + if x.met then t.utility else 0
    maxTardiness := if x.aborted then t.maxTardiness else min t.maxTardiness x.tardiness }

section Job

variable {T : Test} {env : JobEnv} {envs : Nat → JobEnv} {t t' : Task} {xs : List Outcome}

/-- The counters of a task have room for `left` more jobs. -/
structure Task.HasRoom (t : Task) (left : Nat) : Prop where
  aborted : t.numAborted + left < 2 ^ 32
  met : t.deadlinesMet + left < 2 ^ 32
  utility : t.utilityAccrued + t.utility * left < 2 ^ 32
  tardiness : t.maxTardiness ≤ 0

theorem Task.HasRoom.record {left : Nat} (h : t.HasRoom (left + 1)) (x : Outcome) :
    (t.record x).HasRoom left := by
  obtain ⟨ha, hm, hu, ht⟩ := h
  rw [Nat.mul_succ] at hu
  refine ⟨?_, ?_, ?_, ?_⟩
  · simp only [Task.record]
    split <;> omega
  · simp only [Task.record]
    split <;> omega
  · simp only [Task.record]
    split <;> omega
  · simp only [Task.record]
    split <;> omega

/-- **The branches of `task_instance`** record the outcome. -/
theorem tabulate_eq_record {deadline endTime : Timespec} (hd : deadline.nsec < BILLION)
    (he : endTime.nsec < BILLION) (aborted : Bool) {left : Nat} (h : t.HasRoom (left + 1)) :
    (tabulate deadline endTime aborted t).1 =
      t.record ⟨aborted, deadline.toNs, endTime.toNs⟩ := by
  obtain ⟨ha, hm, hu, ht⟩ := h
  rw [Nat.mul_succ] at hu
  have htard : timespecSubtractUs deadline endTime =
      Outcome.tardiness ⟨aborted, deadline.toNs, endTime.toNs⟩ := timespecSubtractUs_eq hd he
  have hsign := Outcome.tardiness_nonneg_iff ⟨aborted, deadline.toNs, endTime.toNs⟩
  unfold tabulate
  rw [htard]
  cases aborted with
  | true =>
    rw [Nat.mod_eq_of_lt (by omega)]
    simp [Task.record, Outcome.met]
  | false =>
    by_cases hmet : endTime.toNs ≤ deadline.toNs
    · have htardy := hsign.mpr hmet
      have hmin := min_eq_left (ht.trans htardy)
      rw [Nat.mod_eq_of_lt (a := t.deadlinesMet + 1) (by omega),
        Nat.mod_eq_of_lt (a := t.utilityAccrued + t.utility) (by omega)]
      simp only [Bool.false_eq_true, if_false, if_pos htardy]
      simp [Task.record, Outcome.met, hmet, hmin]
    · have htardy := mt hsign.mp hmet
      simp only [Bool.false_eq_true, if_false, if_neg htardy]
      split
      · next hlt => simp [Task.record, Outcome.met, hmet, min_eq_right hlt.le]
      · next hlt => simp [Task.record, Outcome.met, hmet, min_eq_left (not_lt.mp hlt)]

/-! ## A task's jobs in a run -/

/-- The outcomes of the counted jobs of the loop of `start_task`; there is none when
a job crashes. -/
def countedJobs (T : Test) (envs : Nat → JobEnv) : Nat → Nat → Task → Option (List Outcome)
  | 0, _, _ => some []
  | left + 1, now, t =>
    let env := envs t.numReleases
    let (trace, t', now') := taskInstance T env true now t
    if trace.crashed then none
    else
      let outcome : Outcome := ⟨trace.aborted, (t.findJobDeadline T.globalStartTime).toNs,
        now + env.entering + env.executing⟩
      (countedJobs T envs left now' { t' with numReleases := t'.numReleases + 1 }).map
        (outcome :: ·)

theorem foldl_record_numReleases (xs : List Outcome) (t : Task) (n : Nat) :
    xs.foldl Task.record { t with numReleases := n } =
      { xs.foldl Task.record t with numReleases := n } := by
  induction xs generalizing t with
  | nil => rfl
  | cons x xs ih => exact ih (t.record x)

/-- **The loop of `start_task`** records the outcomes of the counted jobs, one after
the other, and nothing of the uncounted one. -/
theorem releaseLoop_eq_record (envs : Nat → JobEnv) {left now : Nat} (h : t.HasRoom left)
    (hxs : countedJobs T envs left now t = some xs) :
    (releaseLoop T envs left now t).2 =
      { xs.foldl Task.record t with numReleases := t.numReleases + left } := by
  induction left generalizing now t xs with
  | zero =>
    cases hxs
    unfold releaseLoop
    split <;> rfl
  | succ left ih =>
    unfold countedJobs at hxs
    unfold releaseLoop
    dsimp only at hxs ⊢
    split
    · next hcrash => simp [hcrash] at hxs
    · next hcrash =>
      simp only [hcrash] at hxs
      obtain ⟨ys, hys, rfl⟩ := Option.map_eq_some_iff.mp hxs
      set x : Outcome := ⟨(segment T (envs t.numReleases) t).aborted,
        (t.findJobDeadline T.globalStartTime).toNs,
        now + (envs t.numReleases).entering + (envs t.numReleases).executing⟩
      have hjob : (taskInstance T (envs t.numReleases) true now t).2.1 = t.record x := by
        have htab := tabulate_eq_record (t := t) (findJobDeadline_nsec_lt T.globalStartTime t)
          (clock_nsec_lt (now + (envs t.numReleases).entering + (envs t.numReleases).executing))
          (segment T (envs t.numReleases) t).aborted h
        rw [toNs_clock] at htab
        exact htab
      have hroom : ({ t.record x with numReleases := t.numReleases + 1 } : Task).HasRoom left :=
        ⟨(h.record x).aborted, (h.record x).met, (h.record x).utility, (h.record x).tardiness⟩
      rw [hjob] at hys ⊢
      have hrest := ih hroom hys
      rw [foldl_record_numReleases] at hrest
      refine hrest.trans ?_
      rw [show t.numReleases + 1 + left = t.numReleases + (left + 1) by omega]
      rfl

/-- The sums that the recorded outcomes add up to. -/
theorem foldl_record (xs : List Outcome) (t : Task) :
    (xs.foldl Task.record t).numAborted = t.numAborted + xs.countP Outcome.aborted ∧
    (xs.foldl Task.record t).deadlinesMet = t.deadlinesMet + xs.countP Outcome.met ∧
    (xs.foldl Task.record t).utilityAccrued =
      t.utilityAccrued + t.utility * xs.countP Outcome.met ∧
    (xs.foldl Task.record t).maxTardiness =
      (Outcome.tardinesses xs).foldl min t.maxTardiness := by
  induction xs generalizing t with
  | nil => simp [Outcome.tardinesses]
  | cons x xs ih =>
    obtain ⟨ha, hm, hu, ht⟩ := ih (t.record x)
    simp only [List.foldl_cons, List.countP_cons]
    refine ⟨?_, ?_, ?_, ?_⟩
    · rw [ha]
      simp only [Task.record]
      omega
    · rw [hm]
      simp only [Task.record]
      omega
    · rw [hu, Nat.mul_add]
      simp only [Task.record, mul_ite, mul_one, mul_zero]
      omega
    · rw [ht]
      cases hab : x.aborted with
      | true => simp [Task.record, Outcome.tardinesses, hab]
      | false => simp [Task.record, Outcome.tardinesses, hab]

/-- The jobs of a run change nothing but the statistics. -/
theorem clearTaskStats_releaseLoop (envs : Nat → JobEnv) (left now : Nat) (t : Task) :
    (releaseLoop T envs left now t).2.clearTaskStats = t.clearTaskStats := by
  induction left generalizing now t with
  | zero =>
    unfold releaseLoop
    split <;> rfl
  | succ left ih =>
    unfold releaseLoop
    dsimp only
    split
    · exact clearTaskStats_tabulate _ _ _
    · exact (ih _ _).trans (clearTaskStats_tabulate (t := t) _ _ _)

theorem length_countedJobs {envs : Nat → JobEnv} {left now : Nat}
    (hxs : countedJobs T envs left now t = some xs) : xs.length = left := by
  induction left generalizing now t xs with
  | zero =>
    cases hxs
    rfl
  | succ left ih =>
    unfold countedJobs at hxs
    dsimp only at hxs
    split at hxs
    · cases hxs
    · obtain ⟨ys, hys, rfl⟩ := Option.map_eq_some_iff.mp hxs
      exact congrArg (· + 1) (ih hys)

/-- The deadlines of the jobs, in terms of the task before the loop. -/
theorem deadline_countedJobs {envs : Nat → JobEnv} {left now : Nat}
    (hxs : countedJobs T envs left now t = some xs) {k : Nat} {x : Outcome}
    (hk : xs[k]? = some x) :
    x.deadline =
      (({ t with numReleases := t.numReleases + k } : Task).findJobDeadline
        T.globalStartTime).toNs := by
  induction left generalizing now t xs k with
  | zero =>
    cases hxs
    cases hk
  | succ left ih =>
    unfold countedJobs at hxs
    dsimp only at hxs
    split at hxs
    · cases hxs
    · obtain ⟨ys, hys, rfl⟩ := Option.map_eq_some_iff.mp hxs
      cases k with
      | zero =>
        cases hk
        rfl
      | succ k =>
        rw [List.getElem?_cons_succ] at hk
        have hperiod : (taskInstance T (envs t.numReleases) true now t).2.1.period = t.period :=
          period_congr (clearTaskStats_tabulate (t := t) _ _ _)
        have hnum : (taskInstance T (envs t.numReleases) true now t).2.1.numReleases =
            t.numReleases := numReleases_tabulate (t := t) _ _ _
        rw [ih hys hk]
        unfold findJobDeadline
        dsimp only
        rw [hperiod, hnum, show t.numReleases + 1 + k = t.numReleases + (k + 1) by omega]

end Job

/-! ## A run -/

/-- What a task meets in a run: the instant that its process agrees on as the start,
how long it takes from there to the loop, and what its jobs meet. -/
structure TaskRun where
  start : Nat
  delay : Nat
  env : Nat → JobEnv

/-- The statistics of the system. -/
structure SysStats where
  totalRelease : Int
  metRelease : Int
  totalUtil : Int
  metUtil : Int
  abortCount : Int
  maxTardiness : Int
  deriving DecidableEq, Repr

/-- `clear_counters` -/
def clearCounters : SysStats := ⟨0, 0, 0, 0, 0, 0⟩

/-- The end of `run`, for one task. -/
def accumulate (s : SysStats) (t : Task) : SysStats where
  totalRelease := toInt (s.totalRelease + toInt t.maxReleases)
  metRelease := toInt (s.metRelease + t.deadlinesMet)
  totalUtil := toInt (s.totalUtil + (t.maxReleases * t.utility % 2 ^ 32 : Nat))
  metUtil := toInt (s.metUtil + t.utilityAccrued)
  abortCount := toInt (s.abortCount + t.numAborted)
  maxTardiness := if t.maxTardiness < s.maxTardiness then t.maxTardiness else s.maxTardiness

section Run

variable (undefined : ℚ → Nat) (numLocks : Int) (lockTime : Nat)

/-- What `run` does to a task before it starts the threads. -/
def prepareTask (o : Options) (t : Task) : Option Task :=
  (t.clearTaskStats.setLockUsage undefined o).calculateReleases o

/-- A task after a run. -/
def runTask (o : Options) (r : TaskRun) (t : Task) : Option Task :=
  (prepareTask undefined o t).map fun t =>
    (startTask ⟨o, numLocks, lockTime, clock r.start⟩ r.env (r.start + r.delay) t).2

/-- The outcomes of the counted jobs of a task in a run. -/
def taskOutcomes (o : Options) (r : TaskRun) (t : Task) : Option (List Outcome) :=
  (prepareTask undefined o t).bind fun t =>
    countedJobs ⟨o, numLocks, lockTime, clock r.start⟩ r.env t.maxReleases (r.start + r.delay)
      { t with numReleases := 0 }

/-- The tasks after a run, the first of which meets `rs 0`. -/
def runTasks (o : Options) : (Nat → TaskRun) → List Task → Option (List Task)
  | _, [] => some []
  | rs, t :: ts => do
    let t ← runTask undefined numLocks lockTime o (rs 0) t
    let ts ← runTasks o (fun i => rs (i + 1)) ts
    return t :: ts

/-- The tasks and the statistics after `run`. -/
def run (o : Options) (rs : Nat → TaskRun) (ts : List Task) : Option (List Task × SysStats) :=
  (runTasks undefined numLocks lockTime o rs ts).map fun ts =>
    (ts, ts.foldl accumulate clearCounters)

/-- The loop of `run_test`: each run has its own options, and gets the tasks as the
run before left them. -/
def batch : List (Options × (Nat → TaskRun)) → List Task → Option (List (List Task × SysStats))
  | [], _ => some []
  | r :: runs, ts => do
    let result ← run undefined numLocks lockTime r.1 r.2 ts
    let results ← batch runs result.1
    return result :: results

end Run

/-! ## Exact statistics -/

/-- The sum of a quantity over the tasks. -/
def total (f : Task → Nat) : List Task → Nat
  | [] => 0
  | t :: ts => f t + total f ts

/-- The counters of a task sum up the outcomes of its counted jobs. -/
structure Task.Exact (t : Task) (start : Nat) (xs : List Outcome) : Prop where
  count : xs.length = t.maxReleases
  deadlines : ∀ k x, xs[k]? = some x → x.deadline = start + (k + 1) * t.period * THOUSAND
  aborted : t.numAborted = xs.countP Outcome.aborted
  met : t.deadlinesMet = xs.countP Outcome.met
  utility : t.utilityAccrued = t.utility * t.deadlinesMet
  tardiness : t.maxTardiness = (Outcome.tardinesses xs).foldl min 0
  all : t.numAborted + t.deadlinesMet + xs.countP Outcome.missed = t.maxReleases

/-- The statistics of the system sum up those of the tasks. -/
structure SysStats.Exact (s : SysStats) (ts : List Task) : Prop where
  totalRelease : s.totalRelease = total Task.maxReleases ts
  metRelease : s.metRelease = total Task.deadlinesMet ts
  totalUtil : s.totalUtil = total (fun t => t.maxReleases * t.utility) ts
  metUtil : s.metUtil = total Task.utilityAccrued ts
  abortCount : s.abortCount = total Task.numAborted ts
  maxTardiness : s.maxTardiness = (ts.map Task.maxTardiness).foldl min 0
  met_le : s.metRelease ≤ s.totalRelease
  util_le : s.metUtil ≤ s.totalUtil

/-- The true totals fit the counters, which are `int`. -/
def TotalsFit (ts : List Task) : Prop :=
  total Task.maxReleases ts < 2 ^ 31 ∧ total (fun t => t.maxReleases * t.utility) ts < 2 ^ 31

instance (ts : List Task) : Decidable (TotalsFit ts) := inferInstanceAs (Decidable (_ ∧ _))

/-! ### The system -/

theorem total_le {f g : Task → Nat} {ts : List Task} (h : ∀ t ∈ ts, f t ≤ g t) :
    total f ts ≤ total g ts := by
  induction ts with
  | nil => exact le_rfl
  | cons t ts ih =>
    exact Nat.add_le_add (h t List.mem_cons_self) (ih fun u hu => h u (List.mem_cons_of_mem t hu))

theorem term_le_total {f : Task → Nat} {ts : List Task} {t : Task} (ht : t ∈ ts) :
    f t ≤ total f ts := by
  induction ts with
  | nil => cases ht
  | cons u ts ih =>
    rcases List.mem_cons.mp ht with rfl | ht
    · exact Nat.le_add_right _ _
    · exact (ih ht).trans (Nat.le_add_left _ _)

/-- An `int` counter to which the tasks add holds their sum, if it fits. -/
theorem foldl_toInt (f : Task → Nat) {ts : List Task} {a : Nat}
    (h : a + total f ts < 2 ^ 31) :
    ts.foldl (fun (s : Int) t => toInt (s + f t)) a = (a + total f ts : Nat) := by
  induction ts generalizing a with
  | nil => rfl
  | cons t ts ih =>
    simp only [total] at h
    have hstep : toInt ((a : Int) + f t) = (a + f t : Nat) := by
      rw [toInt_eq_self (by omega) (by omega)]
      rfl
    rw [List.foldl_cons, hstep, ih (by omega)]
    simp only [total]
    omega

/-- A field of the statistics only depends on that field. -/
theorem foldl_field (field : SysStats → Int) (f : Int → Task → Int) {ts : List Task}
    (h : ∀ s, ∀ t ∈ ts, field (accumulate s t) = f (field s) t) {s : SysStats} :
    field (ts.foldl accumulate s) = ts.foldl f (field s) := by
  induction ts generalizing s with
  | nil => rfl
  | cons t ts ih =>
    rw [List.foldl_cons, ih fun s u hu => h s u (List.mem_cons_of_mem t hu),
      h s t List.mem_cons_self, List.foldl_cons]

/-- **The statistics of the system are exact** when those of the tasks are. -/
theorem sysStats_exact {ts : List Task} (hfit : TotalsFit ts)
    (hts : ∀ t ∈ ts, ∃ start xs, t.Exact start xs) :
    (ts.foldl accumulate clearCounters).Exact ts := by
  obtain ⟨hrel, hutil⟩ := hfit
  have hle : ∀ t ∈ ts, t.numAborted + t.deadlinesMet ≤ t.maxReleases := by
    intro t ht
    obtain ⟨start, xs, h⟩ := hts t ht
    have := h.all
    omega
  have hmet : total Task.deadlinesMet ts ≤ total Task.maxReleases ts :=
    total_le fun t ht => by
      have := hle t ht
      omega
  have habort : total Task.numAborted ts ≤ total Task.maxReleases ts :=
    total_le fun t ht => by
      have := hle t ht
      omega
  have hacc : total Task.utilityAccrued ts ≤ total (fun t => t.maxReleases * t.utility) ts :=
    total_le fun t ht => by
      obtain ⟨start, xs, h⟩ := hts t ht
      rw [h.utility, Nat.mul_comm t.maxReleases]
      have := hle t ht
      exact Nat.mul_le_mul_left _ (by omega)
  have htotal : ∀ (field : SysStats → Int) (f : Task → Nat), field clearCounters = (0 : Nat) →
      (∀ s, ∀ t ∈ ts, field (accumulate s t) = toInt (field s + f t)) → total f ts < 2 ^ 31 →
      field (ts.foldl accumulate clearCounters) = total f ts := by
    intro field f hzero hfield hlt
    rw [foldl_field field (fun a t => toInt (a + f t)) hfield, hzero, foldl_toInt f (by omega),
      Nat.zero_add]
  have hrelease := htotal SysStats.totalRelease Task.maxReleases rfl (fun s t ht => by
    have := term_le_total (f := Task.maxReleases) ht
    simp only [accumulate]
    rw [toInt_eq_self (x := t.maxReleases) (by omega) (by omega)]) hrel
  have hpossible := htotal SysStats.totalUtil (fun t => t.maxReleases * t.utility) rfl
    (fun s t ht => by
      have := term_le_total (f := fun t => t.maxReleases * t.utility) ht
      simp only [accumulate]
      rw [Nat.mod_eq_of_lt (by omega)]) hutil
  have hmet' := htotal SysStats.metRelease Task.deadlinesMet rfl (fun _ _ _ => rfl) (by omega)
  have hacc' := htotal SysStats.metUtil Task.utilityAccrued rfl (fun _ _ _ => rfl) (by omega)
  refine ⟨hrelease, hmet', hpossible, hacc',
    htotal SysStats.abortCount Task.numAborted rfl (fun _ _ _ => rfl) (by omega), ?_, ?_, ?_⟩
  · rw [foldl_field SysStats.maxTardiness (fun m t => min m t.maxTardiness), List.foldl_map]
    · rfl
    · intro s t _
      simp only [accumulate]
      split
      · next hlt => rw [min_eq_right hlt.le]
      · next hlt => rw [min_eq_left (not_lt.mp hlt)]
  · rw [hmet', hrelease]
    exact_mod_cast hmet
  · rw [hacc', hpossible]
    exact_mod_cast hacc

/-! ### A task -/

/-- A task as it was read: without what a run sets. -/
def Task.asRead (t : Task) : Task :=
  { t.clearTaskStats with
    lockedUsage := 0, unlockedUsage := 0, maxReleases := 0, extraRelease := false }

section Run

variable {undefined : ℚ → Nat} {numLocks : Int} {lockTime : Nat} {o : Options} {t t' : Task}

/-- What a run starts from does not depend on what earlier runs left. -/
theorem prepareTask_congr (h : t.asRead = t'.asRead) :
    prepareTask undefined o t = prepareTask undefined o t' := by
  have hread : ∀ u : Task, prepareTask undefined o u = prepareTask undefined o u.asRead := by
    intro u
    unfold prepareTask calculateReleases
    rfl
  rw [hread, h, ← hread]

theorem prepareTask_eq_some (h : prepareTask undefined o t = some t') :
    t'.asRead = t.asRead ∧ t'.clearTaskStats = t' := by
  unfold prepareTask calculateReleases at h
  dsimp only at h
  split at h
  · cases h
  · cases h
    exact ⟨rfl, rfl⟩

theorem asRead_congr (h : t.clearTaskStats = t'.clearTaskStats) : t.asRead = t'.asRead := by
  unfold Task.asRead
  rw [h]

/-- What a task that is set up for a run starts with. -/
theorem clear_counters (h : t.clearTaskStats = t) : t.numReleases = 0 ∧ t.numAborted = 0 ∧
    t.deadlinesMet = 0 ∧ t.utilityAccrued = 0 ∧ t.maxTardiness = 0 := by
  rw [← h]
  exact ⟨rfl, rfl, rfl, rfl, rfl⟩

/-- **The jobs of a run leave exact statistics** in a task that is set up for it. -/
theorem releaseLoop_exact {start now : Nat} {envs : Nat → JobEnv} {xs : List Outcome}
    (hclear : t.clearTaskStats = t) (hcount : t.maxReleases < 2 ^ 32)
    (hperiod : t.maxReleases * t.period < 2 ^ 32) (hutil : t.maxReleases * t.utility < 2 ^ 32)
    (hxs : countedJobs ⟨o, numLocks, lockTime, clock start⟩ envs t.maxReleases now t = some xs) :
    (releaseLoop ⟨o, numLocks, lockTime, clock start⟩ envs t.maxReleases now t).2.Exact start
      xs := by
  obtain ⟨hnum, hab, hmet, hacc, htard⟩ := clear_counters hclear
  have hlen := length_countedJobs hxs
  have hroom : t.HasRoom t.maxReleases := by
    refine ⟨?_, ?_, ?_, htard.le⟩
    · rwa [hab, Nat.zero_add]
    · rwa [hmet, Nat.zero_add]
    · rwa [hacc, Nat.zero_add, Nat.mul_comm]
  obtain ⟨hab', hmet', hacc', htard'⟩ := foldl_record xs t
  have hstats := clearTaskStats_releaseLoop (T := ⟨o, numLocks, lockTime, clock start⟩) envs
    t.maxReleases now t
  have hloop := releaseLoop_eq_record envs hroom hxs
  generalize (releaseLoop ⟨o, numLocks, lockTime, clock start⟩ envs t.maxReleases now t).2 = t'
    at hstats hloop
  have hmax : t'.maxReleases = t.maxReleases := (congrArg Task.maxReleases hstats :)
  have hper : t'.period = t.period := (congrArg Task.period hstats :)
  have hut : t'.utility = t.utility := (congrArg Task.utility hstats :)
  have habs : t'.numAborted = xs.countP Outcome.aborted := by
    rw [hloop]
    exact hab'.trans (by rw [hab, Nat.zero_add])
  have hmets : t'.deadlinesMet = xs.countP Outcome.met := by
    rw [hloop]
    exact hmet'.trans (by rw [hmet, Nat.zero_add])
  refine ⟨hlen.trans hmax.symm, ?_, habs, hmets, ?_, ?_, ?_⟩
  · intro k x hx
    have hk : k < t.maxReleases := hlen ▸ (List.getElem?_eq_some_iff.mp hx).1
    have hfit : (k + 1) * t.period < 2 ^ 32 := (Nat.mul_le_mul_right _ hk).trans_lt hperiod
    have hnsec := clock_nsec_lt start
    have hjob : ({ t with numReleases := t.numReleases + k } : Task).numReleases = k := by
      simp [hnum]
    rw [deadline_countedJobs hxs hx, toNs_findJobDeadline, hjob, toNs_clock, hper]
    · rw [hjob]
      omega
    · rw [hjob]
      simp only [BILLION, THOUSAND] at hnsec ⊢
      omega
  · rw [hut, hmets, hloop]
    exact hacc'.trans (by rw [hacc, Nat.zero_add])
  · rw [hloop]
    exact htard'.trans (by rw [htard])
  · rw [habs, hmets, Outcome.length_eq, hlen, hmax]

/-- **The statistics of a task are exact** after a run. -/
theorem task_exact {r : TaskRun} {xs : List Outcome}
    (h : runTask undefined numLocks lockTime o r t = some t')
    (hxs : taskOutcomes undefined numLocks lockTime o r t = some xs)
    (hutil : t'.maxReleases * t'.utility < 2 ^ 32) : t'.Exact r.start xs := by
  obtain ⟨u, hu, rfl⟩ := Option.map_eq_some_iff.mp h
  obtain ⟨v, hv, hjobs⟩ := Option.bind_eq_some_iff.mp hxs
  rw [hu] at hv
  cases hv
  obtain ⟨-, hclear⟩ := prepareTask_eq_some hu
  obtain ⟨hcount, hperiod⟩ := calculateReleases_fits hu
  have hsame : ({ u with numReleases := 0 } : Task) = u := by
    rw [← hclear]
    rfl
  have hstats := clearTaskStats_releaseLoop (T := ⟨o, numLocks, lockTime, clock r.start⟩) r.env
    u.maxReleases (r.start + r.delay) u
  unfold startTask at hutil ⊢
  rw [hsame] at hutil hjobs ⊢
  refine releaseLoop_exact hclear hcount hperiod ?_ hjobs
  have hmax := (congrArg Task.maxReleases hstats :)
  have hut := (congrArg Task.utility hstats :)
  exact hmax ▸ hut ▸ hutil

/-! ### The batch -/

theorem runTask_asRead {r : TaskRun} (h : runTask undefined numLocks lockTime o r t = some t') :
    t'.asRead = t.asRead := by
  obtain ⟨u, hu, rfl⟩ := Option.map_eq_some_iff.mp h
  exact (asRead_congr (clearTaskStats_releaseLoop _ _ _ { u with numReleases := 0 })).trans
    (prepareTask_eq_some hu).1

variable {rs : Nat → TaskRun} {ts ts' : List Task}

theorem runTasks_asRead (h : runTasks undefined numLocks lockTime o rs ts = some ts') :
    ts'.map Task.asRead = ts.map Task.asRead := by
  induction ts generalizing rs ts' with
  | nil =>
    cases h
    rfl
  | cons t ts ih =>
    unfold runTasks at h
    simp only [Option.bind_eq_bind, Option.bind_eq_some_iff, Option.pure_def] at h
    obtain ⟨u, hu, us, hus, h⟩ := h
    cases h
    rw [List.map_cons, List.map_cons, runTask_asRead hu, ih hus]

theorem runTasks_congr (h : ts'.map Task.asRead = ts.map Task.asRead) :
    runTasks undefined numLocks lockTime o rs ts' = runTasks undefined numLocks lockTime o rs ts := by
  induction ts generalizing rs ts' with
  | nil => rw [List.map_eq_nil_iff.mp h]
  | cons t ts ih =>
    cases ts' with
    | nil => cases h
    | cons t' ts' =>
      simp only [List.map_cons, List.cons.injEq] at h
      unfold runTasks runTask
      rw [prepareTask_congr h.1, ih h.2]

/-- **Earlier runs contribute nothing**: each run of a batch is a run of the tasks as
they were read. -/
theorem batch_eq {runs : List (Options × (Nat → TaskRun))}
    {results : List (List Task × SysStats)}
    (h : batch undefined numLocks lockTime runs ts = some results) :
    List.Forall₂ (fun r result => run undefined numLocks lockTime r.1 r.2 ts = some result)
      runs results := by
  have hgen : ∀ us : List Task, us.map Task.asRead = ts.map Task.asRead →
      batch undefined numLocks lockTime runs us = some results →
      List.Forall₂ (fun r result => run undefined numLocks lockTime r.1 r.2 ts = some result)
        runs results := by
    clear h
    induction runs generalizing results with
    | nil =>
      intro us _ h
      cases h
      exact .nil
    | cons r runs ih =>
      intro us hus h
      unfold batch at h
      simp only [Option.bind_eq_bind, Option.bind_eq_some_iff, Option.pure_def] at h
      obtain ⟨result, hresult, results, hresults, h⟩ := h
      cases h
      obtain ⟨us', hus', rfl⟩ := Option.map_eq_some_iff.mp hresult
      refine .cons ?_ (ih us' ((runTasks_asRead hus').trans hus) hresults)
      unfold run at hresult ⊢
      rw [← runTasks_congr hus]
      exact hresult
  exact hgen ts rfl h

theorem runTasks_getElem? (h : runTasks undefined numLocks lockTime o rs ts = some ts') {i : Nat} :
    (∀ t, ts[i]? = some t → ∃ t', ts'[i]? = some t' ∧
      runTask undefined numLocks lockTime o (rs i) t = some t') ∧
    (∀ t', ts'[i]? = some t' → ∃ t, ts[i]? = some t ∧
      runTask undefined numLocks lockTime o (rs i) t = some t') := by
  induction ts generalizing rs ts' i with
  | nil =>
    cases h
    simp
  | cons t ts ih =>
    unfold runTasks at h
    simp only [Option.bind_eq_bind, Option.bind_eq_some_iff, Option.pure_def] at h
    obtain ⟨u, hu, us, hus, h⟩ := h
    cases h
    cases i with
    | zero => simpa using hu
    | succ i => exact ih hus

end Run

/-- **Run statistics are exact aggregates of the job outcomes**, in every run of a
batch whose jobs all have an outcome and whose true totals fit. -/
theorem statistics_exact {undefined : ℚ → Nat} {numLocks : Int} {lockTime : Nat}
    {runs : List (Options × (Nat → TaskRun))} {ts : List Task}
    {results : List (List Task × SysStats)}
    (h : batch undefined numLocks lockTime runs ts = some results)
    {j : Nat} {o : Options} {rs : Nat → TaskRun} {ts' : List Task} {sys : SysStats}
    (hrun : runs[j]? = some (o, rs)) (hresult : results[j]? = some (ts', sys))
    {outcomes : Nat → List Outcome}
    (houtcomes : ∀ (i : Nat) (t : Task), ts[i]? = some t →
      taskOutcomes undefined numLocks lockTime o (rs i) t = some (outcomes i))
    (hfit : TotalsFit ts') :
    (∀ (i : Nat) (t : Task), ts[i]? = some t → ∃ t', ts'[i]? = some t' ∧ t'.asRead = t.asRead ∧
      t'.Exact (rs i).start (outcomes i)) ∧ sys.Exact ts' := by
  obtain ⟨hj, hrun⟩ := List.getElem?_eq_some_iff.mp hrun
  obtain ⟨hj', hresult⟩ := List.getElem?_eq_some_iff.mp hresult
  have hone : run undefined numLocks lockTime o rs ts = some (ts', sys) := by
    have := (List.forall₂_iff_get.mp (batch_eq h)).2 j hj hj'
    rwa [List.get_eq_getElem, List.get_eq_getElem, hrun, hresult] at this
  obtain ⟨us, hus, heq⟩ := Option.map_eq_some_iff.mp hone
  cases heq
  have hutil : ∀ t' ∈ ts', t'.maxReleases * t'.utility < 2 ^ 32 := by
    intro t' ht'
    have hle := term_le_total (f := fun t => t.maxReleases * t.utility) ht'
    have hlt := hfit.2
    omega
  have htask : ∀ (i : Nat) (t : Task), ts[i]? = some t → ∃ t', ts'[i]? = some t' ∧
      t'.asRead = t.asRead ∧ t'.Exact (rs i).start (outcomes i) := by
    intro i t ht
    obtain ⟨t', ht', hafter⟩ := (runTasks_getElem? hus).1 t ht
    exact ⟨t', ht', runTask_asRead hafter,
      task_exact hafter (houtcomes i t ht) (hutil t' (List.mem_of_getElem? ht'))⟩
  refine ⟨htask, sysStats_exact hfit fun t' ht' => ?_⟩
  obtain ⟨i, hi⟩ := List.mem_iff_getElem?.mp ht'
  obtain ⟨t, ht, -⟩ := (runTasks_getElem? hus).2 t' hi
  obtain ⟨t'', ht'', -, hexact⟩ := htask i t ht
  rw [hi] at ht''
  cases ht''
  exact ⟨_, _, hexact⟩

/-! ## A batch of two runs -/

/-- Both jobs of the first run are aborted; those of the second run are not. -/
def twoRunJobs (env : JobEnv) : Options × (Nat → TaskRun) :=
  (plainOptions, fun _ => ⟨0, 0, fun _ => env⟩)

def quickJob : JobEnv := { abortedJob with unlockedAborts := false }

/-- The task after a run. -/
def halfSecondTaskAfter (aborted met : Nat) : Task :=
  { halfSecondTask with
    lockedUsage := 0
    unlockedUsage := 1000
    numReleases := 2
    numAborted := aborted
    deadlinesMet := met
    utilityAccrued := met }

/-- The second run counts the two jobs that meet their deadlines, and no aborted one. -/
theorem statistics_exact_twoRunJobs :
    (∀ (i : Nat) (t : Task), [halfSecondTask][i]? = some t →
      ∃ t', [halfSecondTaskAfter 0 2][i]? = some t' ∧ t'.asRead = t.asRead ∧
        t'.Exact ((twoRunJobs quickJob).2 i).start
          [⟨false, 500000000, 1000⟩, ⟨false, 1000000000, 500001000⟩]) ∧
      SysStats.Exact ⟨2, 2, 2, 2, 0, 0⟩ [halfSecondTaskAfter 0 2] := by
  have hbatch : batch (fun _ => 0) 0 0 [twoRunJobs abortedJob, twoRunJobs quickJob]
      [halfSecondTask] = some [([halfSecondTaskAfter 2 0], ⟨2, 0, 2, 0, 2, 0⟩),
        ([halfSecondTaskAfter 0 2], ⟨2, 2, 2, 2, 0, 0⟩)] := by
    decide +kernel
  have houtcomes : ∀ (i : Nat) (t : Task), [halfSecondTask][i]? = some t →
      taskOutcomes (fun _ => 0) 0 0 plainOptions ((twoRunJobs quickJob).2 i) t =
        some ((fun _ => [⟨false, 500000000, 1000⟩, ⟨false, 1000000000, 500001000⟩]) i) := by
    intro i t ht
    cases i with
    | zero =>
      cases ht
      decide +kernel
    | succ i => cases ht
  exact statistics_exact hbatch (j := 1) rfl rfl houtcomes (by decide)

end Chronos
