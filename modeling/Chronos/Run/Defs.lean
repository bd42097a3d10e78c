import Mathlib.Data.Fintype.Basic
import Mathlib.Logic.Function.Basic
import Mathlib.Logic.Relation

/-!
# A batch of runs

`run_test` calls `run` once for each usage of the batch. A run forks one process
per thread group, each of which starts the other threads of its group and then
runs its own task; all threads meet at a barrier, agree on a start time and
release their jobs. The tasks and the barrier live in shared memory. The `test`
struct does not: `fork` copies it, and the buffer of `stdout` with it.

`Step` interleaves the parent, the group processes and the threads. Only the
calls that succeed are here, and of the output only what `print_results` adds
and what stood in the buffer before the first run.
-/

namespace Chronos.Run

/-- What the tasks of an accepted taskset and the options of the batch say about
a run. `jobs` counts the releases, the uncounted one included. -/
structure Setup where
  numTasks : Nat
  numTasks_pos : 0 < numTasks
  threadGroup : Fin numTasks → Nat
  groupLeader : Fin numTasks → Fin numTasks
  leader_iff : ∀ t u, groupLeader t = groupLeader u ↔ threadGroup t = threadGroup u
  leader_group : ∀ t, threadGroup (groupLeader t) = threadGroup t
  jobs : Fin numTasks → Nat
  runs : Nat
  runs_pos : 0 < runs
  warnings : List String

namespace Setup

variable (S : Setup)

abbrev Task := Fin S.numTasks

/-- `group_leader(t)` -/
def IsLeader (t : S.Task) : Prop := S.groupLeader t = t

/-- `same_group(t, u) && !group_leader(u)` -/
def IsMember (t u : S.Task) : Prop := S.threadGroup t = S.threadGroup u ∧ ¬S.IsLeader u

variable {S}

instance (t : S.Task) : Decidable (S.IsLeader t) :=
  inferInstanceAs (Decidable (S.groupLeader t = t))

instance (t u : S.Task) : Decidable (S.IsMember t u) := inferInstanceAs (Decidable (_ ∧ _))

theorem isLeader_groupLeader (t : S.Task) : S.IsLeader (S.groupLeader t) :=
  (S.leader_iff _ _).mpr (S.leader_group t)

theorem leader_eq_of_member {t u : S.Task} (hl : S.IsLeader t) (h : S.IsMember t u) :
    S.groupLeader u = t := ((S.leader_iff t u).mpr h.1).symm.trans hl

theorem member_groupLeader {u : S.Task} (h : ¬S.IsLeader u) : S.IsMember (S.groupLeader u) u :=
  ⟨S.leader_group u, h⟩

end Setup

/-- A batch of runs of one task that releases a single job. -/
def Setup.solo (runs : Nat) (runs_pos : 0 < runs) : Setup where
  numTasks := 1
  numTasks_pos := Nat.one_pos
  threadGroup _ := 0
  groupLeader t := t
  leader_iff t u := ⟨fun _ => rfl, fun _ => Fin.ext (by omega)⟩
  leader_group _ := rfl
  jobs _ := 1
  runs
  runs_pos
  warnings := []

/-- A piece of what is written to `stdout`: the text printed before the first
run, or the line of a run's `print_results`. -/
inductive Line
  | warning (text : String)
  | result (run : Nat)
  deriving DecidableEq, Repr

/-- Where the parent is in `run` and in the loop around it. -/
inductive ParentPc
  | create (i : Nat)
  | join (i : Nat)
  | print
  | next
  | exited
  deriving DecidableEq, Repr

/-- Where the process of a thread group is in `start_task_group`. -/
inductive ProcPc
  | absent
  | initGroup
  | spawn (i : Nat)
  | lead
  | joining (i : Nat)
  | cleanupGroup
  | exited
  deriving DecidableEq, Repr

/-- Where a thread is in `start_task`. -/
inductive ThreadPc
  | absent
  | setup
  | barrier
  | passed
  | timed
  | job (k : Nat)
  | done
  deriving DecidableEq, Repr

/-- The processes, their memories and the output file. A pointer to a task's
`local_start_time` is that task. -/
structure State (S : Setup) where
  run : Nat
  parent : ParentPc
  /-- The parent's `tester.global_start_time`. -/
  globalStart : Option S.Task
  stdout : List Line
  file : List Line
  /-- The number of threads that have called `pthread_barrier_wait`. -/
  arrived : Nat
  proc : S.Task → ProcPc
  /-- Each process's own `tester.global_start_time`. -/
  procStart : S.Task → Option S.Task
  procStdout : S.Task → List Line
  thread : S.Task → ThreadPc
  localStart : S.Task → Nat
  /-- The start time each task's last deadline was computed from. -/
  deadlineFrom : S.Task → Option Nat

namespace State

variable {S : Setup}

/-- The state at the start of a run: the barrier is initialised and the parent's
start time reset. -/
def startRun (s : State S) (run : Nat) : State S :=
  { s with
    run, parent := .create 0, globalStart := none, arrived := 0
    proc := fun _ => .absent, thread := fun _ => .absent, deadlineFrom := fun _ => none }

/-- The state before the first run. -/
def start (S : Setup) : State S where
  run := 0
  parent := .create 0
  globalStart := none
  stdout := S.warnings.map .warning
  file := []
  arrived := 0
  proc _ := .absent
  procStart _ := none
  procStdout _ := []
  thread _ := .absent
  localStart _ := 0
  deadlineFrom _ := none

def setProc (s : State S) (l : S.Task) (pc : ProcPc) : State S :=
  { s with proc := Function.update s.proc l pc }

def setThread (s : State S) (t : S.Task) (pc : ThreadPc) : State S :=
  { s with thread := Function.update s.thread t pc }

end State

/-- One step of the parent, a group process or a thread. -/
inductive Step (S : Setup) : State S → State S → Prop
  /- `run` and the loop of `run_test` -/
  | fork {s} (t : S.Task) (hpc : s.parent = .create t) (hl : S.IsLeader t) :
    Step S s { s.setProc t .initGroup with
      parent := .create (t + 1)
      procStart := Function.update s.procStart t s.globalStart
      procStdout := Function.update s.procStdout t s.stdout }
  | forkSkip {s} (t : S.Task) (hpc : s.parent = .create t) (hl : ¬S.IsLeader t) :
    Step S s { s with parent := .create (t + 1) }
  | forked {s} (hpc : s.parent = .create S.numTasks) : Step S s { s with parent := .join 0 }
  | join {s} (t : S.Task) (hpc : s.parent = .join t) (hl : S.IsLeader t)
    (hx : s.proc t = .exited) : Step S s { s with parent := .join (t + 1) }
  | joinSkip {s} (t : S.Task) (hpc : s.parent = .join t) (hl : ¬S.IsLeader t) :
    Step S s { s with parent := .join (t + 1) }
  | joined {s} (hpc : s.parent = .join S.numTasks) : Step S s { s with parent := .print }
  | print {s} (hpc : s.parent = .print) :
    Step S s { s with parent := .next, stdout := s.stdout ++ [.result s.run] }
  | again {s} (hpc : s.parent = .next) (hr : s.run + 1 < S.runs) :
    Step S s (s.startRun (s.run + 1))
  | finish {s} (hpc : s.parent = .next) (hr : s.run + 1 = S.runs) :
    Step S s { s with parent := .exited, file := s.file ++ s.stdout }
  /- `start_task_group` and the `exit` around it -/
  | initGroup {s} (l : S.Task) (hpc : s.proc l = .initGroup) : Step S s (s.setProc l (.spawn 0))
  | spawn {s} (l t : S.Task) (hpc : s.proc l = .spawn t) (hm : S.IsMember l t) :
    Step S s ((s.setProc l (.spawn (t + 1))).setThread t .setup)
  | spawnSkip {s} (l t : S.Task) (hpc : s.proc l = .spawn t) (hm : ¬S.IsMember l t) :
    Step S s (s.setProc l (.spawn (t + 1)))
  | spawned {s} (l : S.Task) (hpc : s.proc l = .spawn S.numTasks) :
    Step S s ((s.setProc l .lead).setThread l .setup)
  | led {s} (l : S.Task) (hpc : s.proc l = .lead) (hd : s.thread l = .done) :
    Step S s (s.setProc l (.joining 0))
  | joinThread {s} (l t : S.Task) (hpc : s.proc l = .joining t) (hm : S.IsMember l t)
    (hd : s.thread t = .done) : Step S s (s.setProc l (.joining (t + 1)))
  | joinThreadSkip {s} (l t : S.Task) (hpc : s.proc l = .joining t) (hm : ¬S.IsMember l t) :
    Step S s (s.setProc l (.joining (t + 1)))
  | joinedThreads {s} (l : S.Task) (hpc : s.proc l = .joining S.numTasks) :
    Step S s (s.setProc l .cleanupGroup)
  | exit {s} (l : S.Task) (hpc : s.proc l = .cleanupGroup) :
    Step S s { s.setProc l .exited with file := s.file ++ s.procStdout l }
  /- `start_task` -/
  | arrive {s} (t : S.Task) (hpc : s.thread t = .setup) :
    Step S s { s.setThread t .barrier with arrived := s.arrived + 1 }
  | pass {s} (t : S.Task) (hpc : s.thread t = .barrier) (hall : s.arrived = S.numTasks) :
    Step S s (s.setThread t .passed)
  | clock {s} (t : S.Task) (now : Nat) (hpc : s.thread t = .passed) :
    Step S s { s.setThread t .timed with localStart := Function.update s.localStart t now }
  | swap {s} (t : S.Task) (hpc : s.thread t = .timed) :
    Step S s { s.setThread t (.job 0) with
      procStart := Function.update s.procStart (S.groupLeader t)
        ((s.procStart (S.groupLeader t)).or (some t)) }
  | job {s} (t p : S.Task) (k : Nat) (hpc : s.thread t = .job k) (hk : k < S.jobs t)
    (hp : s.procStart (S.groupLeader t) = some p) :
    Step S s { s.setThread t (.job (k + 1)) with
      deadlineFrom := Function.update s.deadlineFrom t (some (s.localStart p)) }
  | finishJobs {s} (t : S.Task) (hpc : s.thread t = .job (S.jobs t)) :
    Step S s (s.setThread t .done)

/-- The states of a batch. -/
def Reachable (S : Setup) : State S → Prop := Relation.ReflTransGen (Step S) (State.start S)

end Chronos.Run
