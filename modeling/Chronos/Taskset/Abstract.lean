import Mathlib.Combinatorics.Colex
import Chronos.Taskset.Load

/-!
# Tasksets

What a taskset file says, apart from how it is written: the number of locks, the
tasks and the sizes of the groups. A taskset carries the bounds under which it can
be written, and determines the tasks that are to be made of it.
-/

namespace Chronos.Taskset

open Lib

/-- A list of processors or locks: the word `all`, or numbers, of which there is at
least one. -/
inductive Ids
  | all
  | listed (first : Nat) (more : List Nat)
  deriving DecidableEq, Repr

/-- The numbers of a list, where `all` is those below `n`. -/
def Ids.toList (n : Nat) : Ids → List Nat
  | .all => List.range n
  | .listed first more => first :: more

/-- A task line; a HUA utility is given only after a list of locks. -/
structure TaskSpec where
  cpus : Ids
  threadGroup : Nat
  wss : Int
  period : Nat
  execTime : Nat
  utility : Nat
  optional : Option (Ids × Option Nat)
  deriving DecidableEq, Repr

namespace TaskSpec

def cpuSet (numProcessors : Nat) (t : TaskSpec) : Finset Nat :=
  (t.cpus.toList numProcessors).toFinset

def locks (numLocks : Nat) (t : TaskSpec) : List Nat :=
  match t.optional with
  | none => []
  | some (l, _) => l.toList numLocks

def huaUtility (t : TaskSpec) : Nat :=
  match t.optional with
  | some (_, some hua) => hua
  | _ => 0

/-- Every number is in the range of its field. -/
structure InRange (numProcessors numLocks : Nat) (t : TaskSpec) : Prop where
  cpus : ∀ i ∈ t.cpus.toList numProcessors, i < numProcessors
  threadGroup : t.threadGroup < 2 ^ 32
  wss : -2 ^ 63 ≤ t.wss ∧ t.wss < 2 ^ 63
  period : t.period < 2 ^ 64
  execTime : t.execTime < 2 ^ 64
  utility : t.utility < 2 ^ 32
  locks : (t.locks numLocks).length ≤ numLocks ∧ ∀ i ∈ t.locks numLocks, i < numLocks
  huaUtility : t.huaUtility < 2 ^ 32

instance (numProcessors numLocks : Nat) (t : TaskSpec) :
    Decidable (t.InRange numProcessors numLocks) :=
  decidable_of_iff
    ((∀ i ∈ t.cpus.toList numProcessors, i < numProcessors) ∧ t.threadGroup < 2 ^ 32 ∧
      (-2 ^ 63 ≤ t.wss ∧ t.wss < 2 ^ 63) ∧ t.period < 2 ^ 64 ∧ t.execTime < 2 ^ 64 ∧
      t.utility < 2 ^ 32 ∧
      ((t.locks numLocks).length ≤ numLocks ∧ ∀ i ∈ t.locks numLocks, i < numLocks) ∧
      t.huaUtility < 2 ^ 32)
    ⟨fun ⟨h₁, h₂, h₃, h₄, h₅, h₆, h₇, h₈⟩ => ⟨h₁, h₂, h₃, h₄, h₅, h₆, h₇, h₈⟩,
      fun ⟨h₁, h₂, h₃, h₄, h₅, h₆, h₇, h₈⟩ => ⟨h₁, h₂, h₃, h₄, h₅, h₆, h₇, h₈⟩⟩

end TaskSpec

/-- A line for a group: its number and the size of its working set. -/
structure GroupSpec where
  threadGroup : Nat
  wss : Int
  deriving DecidableEq, Repr

/-- A taskset for a machine with so many processors. -/
structure TasksetSpec (numProcessors : Nat) where
  numLocks : Nat
  tasks : List TaskSpec
  groups : List GroupSpec
  processors_le : numProcessors ≤ 64
  tasks_ne_nil : tasks ≠ []
  inRange : ∀ t ∈ tasks, t.InRange numProcessors numLocks
  /-- There is a domain for each set of processors. -/
  cpuSets_le : (tasks.map (·.cpuSet numProcessors)).toFinset.card ≤ numProcessors
  groups_occur : ∀ g ∈ groups, ∃ t ∈ tasks, t.threadGroup = g.threadGroup
  wss_range : ∀ g ∈ groups, -2 ^ 63 ≤ g.wss ∧ g.wss < 2 ^ 63

/-! ## What is to be made of a taskset -/

/-- The mask of a set of processors. -/
def maskOf (cpus : Finset Nat) : Nat := ∑ i ∈ cpus, 2 ^ i

theorem testBit_maskOf (cpus : Finset Nat) (i : Nat) : (maskOf cpus).testBit i = decide (i ∈ cpus) := by
  have h := Finset.toFinset_bitIndices_sum_two_pow cpus
  have hi : i ∈ (maskOf cpus).bitIndices.toFinset ↔ i ∈ cpus := by
    unfold maskOf
    rw [h]
  rw [Bool.eq_iff_iff, ← Nat.mem_bitIndices, ← List.mem_toFinset, hi, decide_eq_true_iff]

theorem maskOf_ne_zero {cpus : Finset Nat} (h : cpus.Nonempty) : maskOf cpus ≠ 0 := by
  obtain ⟨i, hi⟩ := h
  intro hzero
  have hbit := testBit_maskOf cpus i
  simp [hzero, hi] at hbit

namespace TasksetSpec

variable {numProcessors : Nat}

/-- The first task of a group leads it. -/
def leader (ts : TasksetSpec numProcessors) (threadGroup : Nat) : Nat :=
  ts.tasks.findIdx (·.threadGroup = threadGroup)

/-- The size of the working set of a group; the last line for it counts. -/
def groupWss (m : Machine) (groups : List GroupSpec) (threadGroup : Nat) : Int :=
  match (groups.filter (·.threadGroup = threadGroup)).getLast? with
  | none => -1
  | some g => clampWss (m.workload.capabilities &&& WORKLOAD_CAP_GROUP_WSS ≠ 0)
      m.workload.minGroupWss m.workload.maxGroupWss g.wss

/-- The task made of the line with this index among the task lines, after so many
group lines. -/
def toTask (m : Machine) (ts : TasksetSpec numProcessors) (groups : List GroupSpec) (index : Nat)
    (t : TaskSpec) : Task :=
  { freshTask with
    cpuMask := maskOf (t.cpuSet numProcessors)
    threadGroup := t.threadGroup
    groupLeader := ts.leader t.threadGroup
    myLocks := (t.locks ts.numLocks).map Int.ofNat
    period := t.period
    periodTs := ⟨t.period / MILLION, t.period % MILLION * THOUSAND⟩
    execTime := t.execTime
    utility := t.utility
    huaUtility := t.huaUtility
    taskWss := clampWss (m.workload.capabilities &&& WORKLOAD_CAP_TASK_WSS ≠ 0)
      m.workload.minTaskWss m.workload.maxTaskWss t.wss
    groupWss := if ts.leader t.threadGroup = index then groupWss m groups t.threadGroup else -1 }

/-- What the tester holds for a taskset: its locks, and its tasks with the last one
first. -/
structure Represents {σ : Type} (m : Machine) (ts : TasksetSpec numProcessors) (T : Tester σ) :
    Prop where
  numLocks : T.numLocks = ts.numLocks
  taskList : T.taskList = (ts.tasks.mapIdx (ts.toTask m ts.groups)).reverse

end TasksetSpec

end Chronos.Taskset
