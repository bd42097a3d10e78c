import Chronos.Lib.Binary64
import Chronos.Lib.Nesting

/-!
# A task and its jobs

The options, the task record, and the functions of `task.c` that set a task up
for a run and then release its jobs. Clock readings are nanoseconds since the
epoch, and a mutex is its index in `tester.locks`. What the code meets from
outside in a job (an uninitialised local, lock calls, aborts, delays) is in
`JobEnv`.
-/

namespace Chronos

abbrev THOUSAND : Nat := 1000
abbrev MILLION : Nat := 1000000
abbrev BILLION : Nat := 1000000000

abbrev TASK_CLEANUP_PRIO : Nat := 92
abbrev TASK_RUN_PRIO : Nat := 90

/-! ## Options -/

abbrev NO_LOCKING : Nat := 0
abbrev LOCKING : Nat := 1
abbrev NESTED_LOCKING : Nat := 3

/-- `struct test_app_opts`, without the output format and the timing method. -/
structure Options where
  cpuUsage : Int
  runTime : Int
  scheduler : Int
  tasksetFilename : Option String
  workload : Int
  enableHua : Bool
  locking : Nat
  csLength : Int
  batchMode : Bool
  endUsage : Int
  interval : Int
  deriving DecidableEq, Repr

/-- The messages printed and the options as left behind. The options are accepted
when nothing is printed. -/
def validateOptions (o : Options) : List String × Options :=
  let errors :=
    (if o.tasksetFilename = none ∨ o.scheduler = -1 ∨ o.cpuUsage = 0 ∨ o.runTime = 0 then
      ["Error: Provide the scheduler, cpu usage, runtime and taskset filename."] else []) ++
    (if o.workload < 0 then ["Error: Invalid workload identifier."] else []) ++
    (if o.batchMode ∧ (o.endUsage = 0 ∨ o.interval = 0) then
      ["Error: Batch mode must be accompanied by nonzero end_usage and interval."] else []) ++
    (if o.batchMode ∧ o.endUsage < o.cpuUsage then
      ["Batchmode selected, but end usage is less than start usage."] else []) ++
    (if o.cpuUsage ≤ 0 ∨ 10000 < o.cpuUsage then
      ["Invalid CPU usage. Must be between 0 and 10000."] else []) ++
    (if o.runTime ≤ 0 ∨ 3600 < o.runTime then
      ["Invalid execution time. Must be between 0 and 3600 seconds."] else []) ++
    (if (o.csLength ≤ 0 ∧ o.locking &&& LOCKING ≠ 0) ∨ 100 < o.csLength then
      ["Invalid critical section length."] else [])
  (errors, if o.batchMode then o else { o with endUsage := o.cpuUsage, interval := 1 })

def Options.Accepted (o : Options) : Prop := (validateOptions o).1 = []

instance (o : Options) : Decidable o.Accepted :=
  inferInstanceAs (Decidable ((validateOptions o).1 = []))

/-- What `initialize_test_locks` does to the options, and its warnings. -/
def initializeTestLocks (numLocks : Int) (o : Options) : List String × Options :=
  let warnings :=
    (if numLocks ≠ 0 ∧ o.locking &&& LOCKING = 0 then
      ["Locking not enabled, but the taskset file specifies locks. Ignoring locks."] else []) ++
    (if numLocks = 0 ∧ o.locking &&& LOCKING ≠ 0 then
      ["Locking enabled, but the taskset file doesn't specify locks. Turning locking off."]
      else [])
  (warnings,
    if numLocks = 0 ∧ o.locking &&& LOCKING ≠ 0 then { o with locking := NO_LOCKING } else o)

/-! ## Times -/

structure Timespec where
  sec : Nat
  nsec : Nat
  deriving DecidableEq, Repr

/-- `clock_gettime` at an instant. -/
def clock (ns : Nat) : Timespec := ⟨ns / BILLION, ns % BILLION⟩

def Timespec.toNs (x : Timespec) : Nat := x.sec * BILLION + x.nsec

@[simp] theorem toNs_clock (ns : Nat) : (clock ns).toNs = ns := by
  exact Nat.div_add_mod' ns BILLION

/-- `timespec_subtract_us`, with a borrow from the seconds and a truncated
division of the nanoseconds. -/
def timespecSubtractUs (x y : Timespec) : Int :=
  let sec : Int := x.sec - y.sec
  let nsec : Int := x.nsec - y.nsec
  if nsec < 0 then (sec - 1) * MILLION + (nsec + BILLION).tdiv THOUSAND
  else sec * MILLION + nsec.tdiv THOUSAND

/-! ## Tasks -/

/-- `struct task`, without the handles of its thread and of its workload.
`myLocks` lists the first `num_my_locks` entries of `my_locks`, and a task is
named by the number of tasks created before it. -/
structure Task where
  cpuMask : Nat
  threadGroup : Nat
  groupLeader : Nat
  myLocks : List Int
  period : Nat
  periodTs : Timespec
  execTime : Nat
  utility : Nat
  huaUtility : Nat
  taskWss : Int
  groupWss : Int
  lockedUsage : Nat
  unlockedUsage : Nat
  maxReleases : Nat
  extraRelease : Bool
  numReleases : Nat
  numAborted : Nat
  deadlinesMet : Nat
  utilityAccrued : Nat
  maxTardiness : Int
  deriving DecidableEq, Repr

namespace Task

def numMyLocks (t : Task) : Nat := t.myLocks.length

def setPeriodTs (t : Task) : Task :=
  { t with periodTs := ⟨t.period / MILLION,
    (t.period * THOUSAND - t.period / MILLION * MILLION * THOUSAND) % 2 ^ 64⟩ }

/-- The conversion of a `double` to `unsigned long`. What it gives for a value
outside the range of the type is not defined by the language. -/
def toUnsignedLong (undefined : ℚ → Nat) (x : ℚ) : Nat :=
  if -1 < x ∧ x < 2 ^ 64 then ⌊x⌋.toNat else undefined x % 2 ^ 64

open Lib (fl)

def setLockUsage (undefined : ℚ → Nat) (o : Options) (t : Task) : Task :=
  let usage := fl (fl o.cpuUsage / 100)
  let cs := fl (fl o.csLength / 100)
  { t with
    unlockedUsage :=
      toUnsignedLong undefined (fl (fl t.execTime * fl (usage - fl (usage * cs))))
    lockedUsage := toUnsignedLong undefined (fl (fl (fl t.execTime * usage) * cs)) }

/-- `none` when the period is 0 and the division traps. -/
def calculateReleases (o : Options) (t : Task) : Option Task :=
  let runtime := (o.runTime * MILLION % 2 ^ 32).toNat
  if t.period = 0 then none
  else some { t with
    maxReleases := runtime / t.period % 2 ^ 32
    extraRelease := runtime % t.period ≠ 0 }

def findJobDeadline (start : Timespec) (t : Task) : Timespec :=
  let offset := (t.numReleases + 1) % 2 ^ 32 * t.period % 2 ^ 64
  let nsec := (start.nsec + offset * THOUSAND % 2 ^ 64) % 2 ^ 64
  ⟨start.sec + nsec / BILLION, nsec % BILLION⟩

end Task

/-! ## The real-time segment of a job -/

/-- What a job meets: the value `last` holds before it is assigned, which of the
lock calls succeed, which `workload_do_work` calls see an abort (the one made
while holding `my_locks[i]`, and the unlocked one), and how long it takes, in
nanoseconds, to enter the segment, to execute it, to get from reading the end
time out of the job, and to wake up after the sleep is over. -/
structure JobEnv where
  last : Int
  lockOk : Nat → Bool
  lockedAborts : Nat → Bool
  unlockedAborts : Bool
  entering : Nat
  executing : Nat
  leaving : Nat
  waking : Nat

inductive Event
  | addAbortHandler (utility time : Nat)
  | beginRtseg (prio utility : Nat) (deadline period : Timespec) (execTime : Nat)
  | lock (mutex : Int) (ok : Bool)
  | unlock (mutex : Int)
  | work (usage : Nat)
  | endRtseg (prio : Nat)
  deriving DecidableEq, Repr

/-- What a piece of a job did. After a crash (an entry of `my_locks` is used that
is not there) nothing follows. -/
structure Trace where
  events : List Event
  aborted : Bool
  crashed : Bool
  deriving DecidableEq, Repr

namespace Trace

def nil : Trace := ⟨[], false, false⟩

def emit (e : Event) : Trace := ⟨[e], false, false⟩

/-- `aborted |= workload_do_work(t, usage)` -/
def doWork (usage : Nat) (aborted : Bool) : Trace := ⟨[.work usage], aborted, false⟩

def crash : Trace := ⟨[], false, true⟩

def andThen (a b : Trace) : Trace :=
  if a.crashed then a else ⟨a.events ++ b.events, a.aborted || b.aborted, b.crashed⟩

end Trace

/-- `struct test` and its options, as far as the tasks read them in a run. -/
structure Test where
  options : Options
  numLocks : Int
  lockTime : Nat
  globalStartTime : Timespec

/-- The lock calls of the nested branch from index `i` on, and `last` after them. -/
def lockLoop (env : JobEnv) : Nat → List Int → Int → Trace × Int
  | _, [], last => (.nil, last)
  | i, m :: ms, last =>
    if env.lockOk i then
      ((Trace.emit (.lock m true)).andThen (lockLoop env (i + 1) ms i).1,
        (lockLoop env (i + 1) ms i).2)
    else (.emit (.lock m false), last)

/-- `for (lock_num = n - 1; lock_num >= 0; lock_num--)` -/
def unlockLoop (locks : List Int) : Nat → Trace
  | 0 => .nil
  | i + 1 =>
    match locks[i]? with
    | some m => (Trace.emit (.unlock m)).andThen (unlockLoop locks i)
    | none => .crash

def nestedLocking (env : JobEnv) (t : Task) : Trace :=
  let acquired := lockLoop env 0 t.myLocks env.last
  (acquired.1.andThen (.doWork t.lockedUsage (env.lockedAborts 0))).andThen
    (unlockLoop t.myLocks (acquired.2 + 1).toNat)

def sequentialLocking (env : JobEnv) (t : Task) : Nat → List Int → Trace
  | _, [] => .nil
  | i, m :: ms =>
    if env.lockOk i then
      (((Trace.emit (.lock m true)).andThen
        (.doWork t.lockedUsage (env.lockedAborts i))).andThen
          (.emit (.unlock m))).andThen (sequentialLocking env t (i + 1) ms)
    else .emit (.lock m false)

def criticalSections (locking : Nat) (env : JobEnv) (t : Task) : Trace :=
  if locking &&& NESTED_LOCKING ≠ 0 then nestedLocking env t
  else if locking &&& LOCKING ≠ 0 then sequentialLocking env t 0 t.myLocks
  else .nil

def setupHuaAbortHandler (T : Test) (t : Task) : Trace :=
  if T.options.enableHua ∧ 0 < t.huaUtility then
    .emit (.addAbortHandler t.huaUtility (T.lockTime * T.numLocks % 2 ^ 64).toNat)
  else .nil

/-- The execution time a job declares to the kernel. -/
def Task.declaredUsage (t : Task) : Nat := (t.unlockedUsage + t.lockedUsage) % 2 ^ 64

/-- `task_instance` up to the end of the real-time segment. -/
def segment (T : Test) (env : JobEnv) (t : Task) : Trace :=
  (((((setupHuaAbortHandler T t).andThen
    (.emit (.beginRtseg TASK_RUN_PRIO t.utility (t.findJobDeadline T.globalStartTime) t.periodTs
      t.declaredUsage))).andThen
    (criticalSections T.options.locking env t)).andThen
    (.doWork t.unlockedUsage env.unlockedAborts)).andThen
    (.emit (.endRtseg TASK_CLEANUP_PRIO)))

/-! ## The releases of a task -/

/-- The statistics of a counted job, and how many microseconds it sleeps. -/
def tabulate (deadline endTime : Timespec) (aborted : Bool) (t : Task) : Task × Nat :=
  let tardiness := timespecSubtractUs deadline endTime
  if aborted then ({ t with numAborted := (t.numAborted + 1) % 2 ^ 32 }, 0)
  else if 0 ≤ tardiness then
    ({ t with
      deadlinesMet := (t.deadlinesMet + 1) % 2 ^ 32
      utilityAccrued := (t.utilityAccrued + t.utility) % 2 ^ 32 },
      if 0 < tardiness then (tardiness % 2 ^ 32).toNat else 0)
  else if tardiness < t.maxTardiness then ({ t with maxTardiness := tardiness }, 0)
  else (t, 0)

/-- What `task_instance` does to the task, what it did, and when it returns. A
sleep of `u` microseconds takes at least `u` microseconds. -/
def taskInstance (T : Test) (env : JobEnv) (countStats : Bool) (now : Nat) (t : Task) :
    Trace × Task × Nat :=
  let trace := segment T env t
  let endTime := now + env.entering + env.executing
  if countStats then
    let (t', sleep) :=
      tabulate (t.findJobDeadline T.globalStartTime) (clock endTime) trace.aborted t
    (trace, t', endTime + env.leaving +
      if 0 < sleep then sleep * THOUSAND + env.waking else 0)
  else (trace, t, endTime + env.leaving)

/-- A job of a task, by its number, and the instant it enters its segment. -/
structure Entry where
  job : Nat
  time : Nat
  deriving DecidableEq, Repr

/-- The loop of `start_task` with `left` releases to go, and the uncounted job. A
crash ends the process. -/
def releaseLoop (T : Test) (env : Nat → JobEnv) : Nat → Nat → Task → List Entry × Task
  | 0, now, t =>
    if t.extraRelease then
      ([⟨t.numReleases, now + (env t.numReleases).entering⟩],
        (taskInstance T (env t.numReleases) false now t).2.1)
    else ([], t)
  | left + 1, now, t =>
    let entry : Entry := ⟨t.numReleases, now + (env t.numReleases).entering⟩
    let (trace, t', now') := taskInstance T (env t.numReleases) true now t
    if trace.crashed then ([entry], t')
    else
      let rest := releaseLoop T env left now' { t' with numReleases := t'.numReleases + 1 }
      (entry :: rest.1, rest.2)

/-- `start_task` from the instant `now` at which it has seen the start time. -/
def startTask (T : Test) (env : Nat → JobEnv) (now : Nat) (t : Task) : List Entry × Task :=
  releaseLoop T env t.maxReleases now { t with numReleases := 0 }

end Chronos
