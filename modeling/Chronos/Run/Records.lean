import Chronos.Run.Action
import Chronos.Run.StartTime
import Chronos.Task.Batch
import Chronos.Task.Deadlines
import Chronos.Taskset.Leaders

/-!
# What the threads record

The task structs lie in shared memory. Each thread writes to the struct of its own
task, and the parent reads all of them once it has joined the groups. `Scenario.Step`
adds the structs and the statistics to the steps of a batch.
-/

namespace Chronos

/-! ## One thread -/

/-- The jobs of a task in a run, the uncounted one included. -/
def Task.releases (t : Task) : Nat := t.maxReleases + if t.extraRelease then 1 else 0

/-- The options in a run of a batch. -/
def Options.inRun (o : Options) (run : Nat) : Options := { o with cpuUsage := o.usage run }

/-- A call of `task_instance` by `start_task`, in the loop or after it: the task and the
instant before and after. A job that crashes has no result. -/
def release (T : Test) (envs : Nat → JobEnv) (x : Task × Nat) : Option (Task × Nat) :=
  let counted := decide (x.1.numReleases < x.1.maxReleases)
  let (trace, t, now) := taskInstance T (envs x.1.numReleases) counted x.2 x.1
  if trace.crashed then none
  else if counted then some ({ t with numReleases := t.numReleases + 1 }, now)
  else some (t, now)

/-- The first `k` calls of `task_instance`. -/
def releaseJobs (T : Test) (envs : Nat → JobEnv) (k : Nat) (x : Task × Nat) :
    Option (Task × Nat) :=
  (fun y => y.bind (release T envs))^[k] (some x)

section Thread

variable {T : Test} {envs : Nat → JobEnv} {t t' : Task} {now : Nat} {x y : Task × Nat}

@[simp] theorem releaseJobs_zero : releaseJobs T envs 0 x = some x := rfl

theorem releaseJobs_succ (k : Nat) :
    releaseJobs T envs (k + 1) x = (releaseJobs T envs k x).bind (release T envs) :=
  Function.iterate_succ_apply' _ _ _

/-- The first call, and then the others. -/
theorem releaseJobs_succ' {k : Nat} (h : releaseJobs T envs (k + 1) x = some y) :
    ∃ z, release T envs x = some z ∧ releaseJobs T envs k z = some y := by
  unfold releaseJobs at h
  rw [Function.iterate_succ_apply, Option.bind_some] at h
  cases hz : release T envs x with
  | none =>
    rw [hz, Function.iterate_fixed rfl] at h
    cases h
  | some z =>
    rw [hz] at h
    exact ⟨z, rfl, h⟩

theorem release_counted (h : t.numReleases < t.maxReleases)
    (hx : release T envs (t, now) = some y) :
    (segment T (envs t.numReleases) t).crashed = false ∧
      y = (nextTask T (envs t.numReleases) now t,
        (taskInstance T (envs t.numReleases) true now t).2.2) := by
  simp only [release, h, decide_true, taskInstance, if_true] at hx
  split at hx
  · cases hx
  · next hcrash =>
    cases hx
    exact ⟨by simpa using hcrash, rfl⟩

theorem release_uncounted (h : t.maxReleases ≤ t.numReleases)
    (hx : release T envs (t, now) = some y) : y.1 = t := by
  simp only [release, Nat.not_lt.mpr h, decide_false, taskInstance, Bool.false_eq_true,
    if_false] at hx
  split at hx
  · cases hx
  · cases hx
    rfl

/-- **The calls of `task_instance` one by one** are the loop of `start_task` with the
uncounted job, and none of them crashes. -/
theorem releaseLoop_of_releaseJobs {left : Nat} (hleft : t.numReleases + left = t.maxReleases)
    (h : releaseJobs T envs (left + if t.extraRelease then 1 else 0) (t, now) = some y) :
    (releaseLoop T envs left now t).2 = y.1 ∧
      ∃ xs, countedJobs T envs left now t = some xs := by
  induction left generalizing t now with
  | zero =>
    refine ⟨?_, [], rfl⟩
    unfold releaseLoop
    split
    · next hextra =>
      rw [if_pos hextra] at h
      obtain ⟨z, hz, hy⟩ := releaseJobs_succ' h
      cases hy
      exact (release_uncounted (by omega) hz).symm
    · next hextra =>
      rw [if_neg hextra] at h
      cases h
      rfl
  | succ left ih =>
    rw [Nat.add_right_comm] at h
    obtain ⟨z, hz, hrest⟩ := releaseJobs_succ' h
    obtain ⟨hcrash, rfl⟩ := release_counted (by omega) hz
    have hclear : (nextTask T (envs t.numReleases) now t).clearTaskStats = t.clearTaskStats :=
      clearTaskStats_nextTask now
    have hmax : (nextTask T (envs t.numReleases) now t).maxReleases = t.maxReleases :=
      (congrArg Task.maxReleases hclear :)
    have hextra : (nextTask T (envs t.numReleases) now t).extraRelease = t.extraRelease :=
      (congrArg Task.extraRelease hclear :)
    have hnum : (nextTask T (envs t.numReleases) now t).numReleases = t.numReleases + 1 :=
      numReleases_nextTask now
    obtain ⟨hloop, xs, hxs⟩ := ih (by rw [hnum, hmax]; omega) (by rwa [hextra])
    unfold releaseLoop countedJobs
    simp only [show (taskInstance T (envs t.numReleases) true now t).1.crashed = false from hcrash,
      Bool.false_eq_true, if_false]
    exact ⟨hloop, _, Option.map_eq_some_iff.mpr ⟨xs, hxs, rfl⟩⟩

end Thread

namespace Run

open Chronos.Lib

variable {S : Setup}

/-! ## All threads -/

/-- What a batch starts from, and what the jobs of each run meet. -/
structure Scenario (S : Setup) where
  undefined : ℚ → Nat
  numLocks : Int
  lockTime : Nat
  options : Options
  /-- The tasks as `init_tasks` leaves them. -/
  tasks : S.Task → Task
  /-- How long a thread takes from the start time to its loop. -/
  delay : Nat → S.Task → Nat
  env : Nat → S.Task → Nat → JobEnv
  jobs_eq : ∀ run t u, prepareTask undefined (options.inRun run) (tasks t) = some u →
    S.jobs t = u.releases

/-- The task structs, the instant at which each thread is, and the statistics printed. -/
structure Records (S : Setup) where
  tasks : S.Task → Task
  now : S.Task → Nat
  printed : List SysStats

/-- What `run` adds up at its end. -/
def Records.stats (m : Records S) : SysStats :=
  (List.ofFn m.tasks).foldl accumulate clearCounters

namespace Scenario

variable (W : Scenario S)

/-- What the tasks read in a run in which their process has the given start time. -/
def test (run start : Nat) : Test :=
  ⟨W.options.inRun run, W.numLocks, W.lockTime, clock start⟩

/-- The loop of `run` that generates the timing info. A period of 0 traps. -/
def prepare (run : Nat) (m : Records S) : Option (Records S) :=
  if h : ∀ t, (prepareTask W.undefined (W.options.inRun run) (m.tasks t)).isSome then
    some { m with tasks := fun t => (prepareTask W.undefined _ (m.tasks t)).get (h t) }
  else none

/-- What an action does to the records. -/
def record (s : State S) (m : Records S) : Action S → Option (Records S)
  | .swap t =>
    let p := (s.procStart (S.groupLeader t)).getD t
    some { m with
      tasks := Function.update m.tasks t { m.tasks t with numReleases := 0 }
      now := Function.update m.now t (s.localStart p + W.delay s.run t) }
  | .job t p _ =>
    (release (W.test s.run (s.localStart p)) (W.env s.run t) (m.tasks t, m.now t)).map fun x =>
      { m with
        tasks := Function.update m.tasks t x.1
        now := Function.update m.now t x.2 }
  | .print => some { m with printed := m.printed ++ [m.stats] }
  | .again => W.prepare (s.run + 1) m
  | _ => some m

/-- The start of a batch, with the tasks set up for the first run. -/
def Starts (x : State S × Records S) : Prop :=
  x.1 = State.start S ∧ W.prepare 0 ⟨W.tasks, fun _ => 0, []⟩ = some x.2

/-- A step of a batch with what it records. -/
def Step (x : State S × Records S) (a : Action S) (x' : State S × Records S) : Prop :=
  Acts x.1 a x'.1 ∧ W.record x.1 x.2 a = some x'.2

end Scenario

/-! ## What one action changes -/

section Step

variable {W : Scenario S} {s s' : State S} {m m' : Records S} {a : Action S}

theorem Scenario.prepare_eq_some {run : Nat} (h : W.prepare run m = some m') :
    m'.printed = m.printed ∧ ∀ t,
      prepareTask W.undefined (W.options.inRun run) (m.tasks t) = some (m'.tasks t) := by
  unfold prepare at h
  split at h
  · cases h
    exact ⟨rfl, fun t => (Option.some_get _).symm⟩
  · cases h

/-- **Each thread keeps to its own task.** -/
theorem Scenario.record_frame (h : W.record s m a = some m') (hn : a ≠ .again) {t : S.Task}
    (ha : a.thread ≠ some t) : m'.tasks t = m.tasks t ∧ m'.now t = m.now t := by
  cases a with
  | again => exact absurd rfl hn
  | swap u =>
    have htu : t ≠ u := fun htu => ha (congrArg some htu.symm)
    cases h
    exact ⟨Function.update_of_ne htu _ _, Function.update_of_ne htu _ _⟩
  | job u p k =>
    have htu : t ≠ u := fun htu => ha (congrArg some htu.symm)
    obtain ⟨x, -, rfl⟩ := Option.map_eq_some_iff.mp h
    exact ⟨Function.update_of_ne htu _ _, Function.update_of_ne htu _ _⟩
  | _ =>
    cases h
    exact ⟨rfl, rfl⟩

/-- Outside the loop of `start_task` and its start, a thread leaves its task alone. -/
theorem Scenario.record_idle (h : W.record s m a = some m') (hn : a ≠ .again)
    (hswap : ∀ t, a ≠ .swap t) (hjob : ∀ t p k, a ≠ .job t p k) :
    m'.tasks = m.tasks ∧ m'.now = m.now := by
  cases a with
  | again => exact absurd rfl hn
  | swap t => exact absurd rfl (hswap t)
  | job t p k => exact absurd rfl (hjob t p k)
  | _ =>
    cases h
    exact ⟨rfl, rfl⟩

/-- **A start time stays.** Once a process has one, neither the pointer nor the time that
it points to changes during the run. -/
theorem Acts.start_kept (hi : Inv s) (hst : StartInv s) (hn : a ≠ .again) (ha : Acts s a s')
    {l p : S.Task} (hl : s.proc l ≠ .absent) (hp : s.procStart l = some p) :
    s'.procStart l = some p ∧ s'.localStart p = s.localStart p := by
  have hswapped := hst.winner l p hl hp
  obtain ⟨hen, rfl⟩ := ha
  cases a with
  | again => exact absurd rfl hn
  | fork t =>
    have hlt : l ≠ t := fun hlt => hl (hlt ▸ hi.fork_absent hen.1)
    exact ⟨(Function.update_of_ne hlt _ _).trans hp, rfl⟩
  | clock t now =>
    have hpt : p ≠ t := by
      rintro rfl
      rw [show s.thread p = .passed from hen] at hswapped
      exact hswapped
    exact ⟨hp, Function.update_of_ne hpt _ _⟩
  | swap t =>
    refine ⟨?_, rfl⟩
    simp only [Action.apply]
    by_cases hlt : l = S.groupLeader t
    · subst hlt
      rw [Function.update_self, hp]
      rfl
    · rw [Function.update_of_ne hlt]
      exact hp
  | _ => exact ⟨hp, rfl⟩

/-- The process of a thread that has been started. -/
theorem Inv.proc_ne_absent (h : Inv s) {t : S.Task} (ht : s.thread t ≠ .absent) :
    s.proc (S.groupLeader t) ≠ .absent := by
  intro habs
  have hst := (h.started t).mp ht
  rw [habs] at hst
  exact hst

/-- Once the groups are joined, no thread has anything left to do. -/
theorem Inv.all_done (h : Inv s) (hp : ∀ l : S.Task, s.parent.PastJoin l) (t : S.Task) :
    s.thread t = .done := by
  have hexit := h.joined _ (S.isLeader_groupLeader t) (hp _)
  exact h.finished t (by rw [hexit]; trivial)

end Step

/-! ## What the threads have recorded so far -/

/-- The number of jobs after which a thread is, if it has come to its loop. -/
def ThreadPc.released (jobs : Nat) : ThreadPc → Option Nat
  | .job k => some k
  | .done => some jobs
  | _ => none

/-- The records in a run that has started from the tasks `u`. -/
structure RunInv (W : Scenario S) (u : S.Task → Task) (s : State S) (m : Records S) : Prop where
  idle : ∀ t, (s.thread t).released (S.jobs t) = none → m.tasks t = u t
  recorded : ∀ t k, (s.thread t).released (S.jobs t) = some k → ∃ p,
    s.procStart (S.groupLeader t) = some p ∧
      releaseJobs (W.test s.run (s.localStart p)) (W.env s.run t) k
        ({ u t with numReleases := 0 }, s.localStart p + W.delay s.run t) =
          some (m.tasks t, m.now t)

section Invariant

variable {W : Scenario S} {u : S.Task → Task} {s s' : State S} {m m' : Records S} {a : Action S}

theorem Acts.run_eq (hn : a ≠ .again) (ha : Acts s a s') : s'.run = s.run := by
  obtain ⟨-, rfl⟩ := ha
  cases a <;> first | rfl | exact absurd rfl hn

theorem RunInv.step (h : RunInv W u s m) (hi : Inv s) (hst : StartInv s) (hn : a ≠ .again)
    (ha : Acts s a s') (hm : W.record s m a = some m') : RunInv W u s' m' := by
  have hrun := ha.run_eq hn
  -- a thread that has come to its loop, with what is recorded of it carried over
  have hkeep : ∀ t k, (s.thread t).released (S.jobs t) = some k → m'.tasks t = m.tasks t →
      m'.now t = m.now t → ∃ p, s'.procStart (S.groupLeader t) = some p ∧
        releaseJobs (W.test s'.run (s'.localStart p)) (W.env s'.run t) k
          ({ u t with numReleases := 0 }, s'.localStart p + W.delay s'.run t) =
            some (m'.tasks t, m'.now t) := by
    intro t k hk htask hnow
    obtain ⟨p, hp, hjobs⟩ := h.recorded t k hk
    have hproc := hi.proc_ne_absent (t := t) fun habs => by simp [habs, ThreadPc.released] at hk
    obtain ⟨hp', hstart⟩ := ha.start_kept hi hst hn hproc hp
    exact ⟨p, hp', by rw [hrun, hstart, htask, hnow, hjobs]⟩
  constructor
  · intro t ht
    have hmove := ha.threadMove hi hn t
    generalize hpc : s.thread t = pc, s'.thread t = pc' at hmove ht
    cases hmove with
    | stay _ hthread =>
      rw [(W.record_frame hm hn hthread).1]
      exact h.idle t (hpc ▸ ht)
    | swap => cases ht
    | job => cases ht
    | finishJobs => cases ht
    | _ =>
      rw [(W.record_idle hm (by simp) (by simp) (by simp)).1]
      exact h.idle t (by rw [hpc]; rfl)
  · intro t k hk
    have hmove := ha.threadMove hi hn t
    generalize hpc : s.thread t = pc, hpc' : s'.thread t = pc' at hmove hk
    cases hmove with
    | stay _ hthread =>
      obtain ⟨htask, hnow⟩ := W.record_frame hm hn hthread
      exact hkeep t k (hpc ▸ hk) htask hnow
    | swap =>
      cases hk
      cases hm
      obtain ⟨-, rfl⟩ := ha
      have hidle := h.idle t (by rw [hpc]; rfl)
      refine ⟨(s.procStart (S.groupLeader t)).getD t, ?_, ?_⟩
      · simp only [Action.apply, Function.update_self]
        cases s.procStart (S.groupLeader t) <;> rfl
      · simp [Action.apply, State.setThread, hidle]
    | job p j =>
      cases hk
      obtain ⟨q, hq, hjobs⟩ := h.recorded t j (by rw [hpc]; rfl)
      obtain ⟨⟨-, -, hp⟩, rfl⟩ := ha
      rw [hq] at hp
      cases hp
      obtain ⟨x, hx, rfl⟩ := Option.map_eq_some_iff.mp hm
      refine ⟨p, hq, ?_⟩
      simp only [Action.apply, State.setThread, Function.update_self]
      rw [releaseJobs_succ, hjobs, Option.bind_some, hx]
    | finishJobs =>
      obtain ⟨htask, hnow⟩ := W.record_idle hm (by simp) (by simp) (by simp)
      cases hk
      exact hkeep t _ (by rw [hpc]; rfl) (congrFun htask t) (congrFun hnow t)
    | _ => cases hk

/-- **What the parent finds** when it has joined all groups: the jobs of each task, as
`start_task` runs them alone from the start time of its process. -/
theorem RunInv.at_print (h : RunInv W u s m) (hi : Inv s) (hp : s.parent = .print) (t : S.Task)
    (hjobs : S.jobs t = (u t).releases) : ∃ p, s.procStart (S.groupLeader t) = some p ∧
      (startTask (W.test s.run (s.localStart p)) (W.env s.run t)
        (s.localStart p + W.delay s.run t) (u t)).2 = m.tasks t ∧
      ∃ xs, countedJobs (W.test s.run (s.localStart p)) (W.env s.run t) (u t).maxReleases
        (s.localStart p + W.delay s.run t) { u t with numReleases := 0 } = some xs := by
  have hdone := hi.all_done (fun _ => by rw [hp]; trivial) t
  obtain ⟨p, hstart, hrec⟩ := h.recorded t (S.jobs t) (by rw [hdone]; rfl)
  rw [hjobs] at hrec
  exact ⟨p, hstart, releaseLoop_of_releaseJobs (t := { u t with numReleases := 0 })
    (Nat.zero_add (u t).maxReleases) hrec⟩

end Invariant

/-! ## Runs in which no job crashes -/

/-- A call of `task_instance` changes nothing of a task but its statistics. -/
theorem release_asRead {T : Test} {envs : Nat → JobEnv} {x y : Task × Nat}
    (h : release T envs x = some y) : y.1.asRead = x.1.asRead := by
  obtain ⟨t, now⟩ := x
  rcases Nat.lt_or_ge t.numReleases t.maxReleases with hlt | hge
  · obtain ⟨-, rfl⟩ := release_counted hlt h
    exact asRead_congr (clearTaskStats_nextTask now)
  · rw [release_uncounted hge h]

theorem exists_release {T : Test} {envs : Nat → JobEnv} {x : Task × Nat}
    (h : ¬JobCrashes T.options (envs x.1.numReleases) x.1) : ∃ y, release T envs x = some y := by
  have hcrash : (segment T (envs x.1.numReleases) x.1).crashed = false := by
    simpa using mt crashed_segment_iff.mp h
  unfold release taskInstance
  by_cases hcounted : x.1.numReleases < x.1.maxReleases <;> simp [hcounted, hcrash]

/-- No period is 0, and no job crashes. -/
structure Scenario.Safe (W : Scenario S) : Prop where
  period : ∀ t, (W.tasks t).period ≠ 0
  noCrash : ∀ run t k, ¬JobCrashes (W.options.inRun run) (W.env run t k) (W.tasks t)

/-- The tasks as `init_tasks` has left them, but for what a run sets. -/
def Records.Read (W : Scenario S) (m : Records S) : Prop :=
  ∀ t, (m.tasks t).asRead = (W.tasks t).asRead

section Safe

variable {W : Scenario S} {s s' : State S} {m m' : Records S} {a : Action S}

theorem Records.Read.prepare {run : Nat} (h : m.Read W) (hm : W.prepare run m = some m') :
    m'.Read W :=
  fun t => (prepareTask_eq_some ((W.prepare_eq_some hm).2 t)).1.trans (h t)

theorem Records.Read.update {t : S.Task} {u : Task} (h : m.Read W)
    (hu : u.asRead = (m.tasks t).asRead) (v : S.Task) :
    (Function.update m.tasks t u v).asRead = (W.tasks v).asRead := by
  by_cases hvt : v = t
  · subst hvt
    rw [Function.update_self, hu, h v]
  · rw [Function.update_of_ne hvt, h v]

theorem Records.Read.record (h : m.Read W) (hm : W.record s m a = some m') : m'.Read W := by
  cases a with
  | again => exact h.prepare hm
  | swap t =>
    cases hm
    exact h.update rfl
  | job t p k =>
    obtain ⟨y, hy, rfl⟩ := Option.map_eq_some_iff.mp hm
    exact h.update (release_asRead hy)
  | _ =>
    cases hm
    exact h

theorem Scenario.Safe.exists_prepare (hW : W.Safe) (h : m.Read W) (run : Nat) :
    ∃ m', W.prepare run m = some m' := by
  have hsome : ∀ t, (prepareTask W.undefined (W.options.inRun run) (m.tasks t)).isSome := by
    intro t
    have hperiod : (m.tasks t).period ≠ 0 := by
      rw [show (m.tasks t).period = (W.tasks t).period from (congrArg Task.period (h t) :)]
      exact hW.period t
    unfold prepareTask Task.calculateReleases
    rw [if_neg (show ¬((m.tasks t).clearTaskStats.setLockUsage W.undefined _).period = 0 from
      hperiod)]
    rfl
  exact ⟨_, dif_pos hsome⟩

/-- Every action leaves its records. -/
theorem Scenario.Safe.exists_record (hW : W.Safe) (h : m.Read W) (s : State S) (a : Action S) :
    ∃ m', W.record s m a = some m' := by
  cases a with
  | again => exact hW.exists_prepare h _
  | job t p k =>
    have hcrash : ¬JobCrashes (W.options.inRun s.run) (W.env s.run t (m.tasks t).numReleases)
        (m.tasks t) := by
      have hlocks : (m.tasks t).myLocks = (W.tasks t).myLocks :=
        (congrArg Task.myLocks (h t) :)
      have := hW.noCrash s.run t (m.tasks t).numReleases
      unfold JobCrashes Task.numMyLocks at this ⊢
      rwa [hlocks]
    obtain ⟨y, hy⟩ : ∃ y, release (W.test s.run (s.localStart p)) (W.env s.run t)
        (m.tasks t, m.now t) = some y := exists_release hcrash
    exact ⟨_, Option.map_eq_some_iff.mpr ⟨y, hy, rfl⟩⟩
  | _ => exact ⟨_, rfl⟩

/-- **Every run of the processes has its records.** -/
theorem Scenario.Safe.exists_path (hW : W.Safe) (h : m.Read W)
    (hpath : Relation.ReflTransGen (Run.Step S) s s') :
    ∃ acts m', Path W.Step (s, m) acts (s', m') ∧ m'.Read W := by
  induction hpath with
  | refl => exact ⟨[], m, .nil, h⟩
  | tail _ hs ih =>
    obtain ⟨acts, m₁, hpath, hread⟩ := ih
    obtain ⟨a, ha⟩ := step_iff.mp hs
    obtain ⟨m₂, hm⟩ := hW.exists_record hread _ a
    exact ⟨acts ++ [a], m₂, hpath.snoc ⟨ha, hm⟩, hread.record hm⟩

theorem Scenario.Safe.exists_starts (hW : W.Safe) :
    ∃ m : Records S, W.Starts (State.start S, m) := by
  obtain ⟨m, hm⟩ := hW.exists_prepare (m := ⟨W.tasks, fun _ => 0, []⟩) (fun _ => rfl) 0
  exact ⟨m, rfl, hm⟩

end Safe

end Run

/-! ## The tasks of an accepted file -/

/-- The jobs of a task in a run with the given options, the uncounted one included. -/
def Task.jobsIn (o : Options) (t : Task) : Nat :=
  let runtime := (o.runTime * MILLION % 2 ^ 32).toNat
  runtime / t.period % 2 ^ 32 + if runtime % t.period ≠ 0 then 1 else 0

/-- The usage of a run does not change how many jobs there are. -/
theorem releases_of_prepareTask {undefined : ℚ → Nat} {o : Options} {run : Nat} {t u : Task}
    (h : prepareTask undefined (o.inRun run) t = some u) : t.jobsIn o = u.releases := by
  unfold prepareTask Task.calculateReleases at h
  dsimp only at h
  split at h
  · cases h
  · cases h
    exact congrArg₂ (· + ·) rfl (if_congr decide_eq_true_iff.symm rfl rfl)

namespace Taskset

open Run

/-- The batches of the tasks of an accepted file, with any jobs. -/
def TaskArray.scenario (ts : TaskArray) (options : Options) (numLocks : Int) (lockTime : Nat)
    (undefined : ℚ → Nat) (runs : Nat) (runs_pos : 0 < runs) (warnings : List String)
    (delay : Nat → Fin ts.tasks.length → Nat)
    (env : Nat → Fin ts.tasks.length → Nat → JobEnv) :
    Scenario (ts.setup (fun t => (ts.task t).jobsIn options) runs runs_pos warnings) where
  undefined
  numLocks
  lockTime
  options
  tasks := ts.task
  delay
  env
  jobs_eq _ _ _ h := releases_of_prepareTask h

/-- The tasks of `threeTasks`. -/
def threeTasksArray : TaskArray where
  tasks := threeTasksTester.taskList
  nonempty := List.cons_ne_nil _ _
  led := by
    obtain ⟨ts, hts⟩ := exists_taskArray initTasks_threeTasks
    exact hts ▸ ts.led

/-- Two runs of `threeTasks`. -/
abbrev threeTasksSetup : Run.Setup :=
  threeTasksArray.setup (fun t => (threeTasksArray.task t).jobsIn threeTasksTester.options) 2
    Nat.two_pos threeTasksTester.warnings

/-- Each of their jobs takes a microsecond. -/
def threeTasksScenario : Scenario threeTasksSetup :=
  threeTasksArray.scenario threeTasksTester.options 0 0 (fun _ => 0) 2 Nat.two_pos
    threeTasksTester.warnings (fun _ _ => 0) fun _ _ _ => quickJob

theorem threeTasksScenario_safe : threeTasksScenario.Safe where
  period := by decide
  noCrash _ _ _ h := h.1 (show NO_LOCKING &&& NESTED_LOCKING = 0 from rfl)

end Taskset

end Chronos
