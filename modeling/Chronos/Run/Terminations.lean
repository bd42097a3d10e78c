import Chronos.Task.Statistics
import Chronos.Taskset.Leaders

/-!
# How the group processes end

The parent joins the process of each thread group before it adds up the statistics.
`tgroup_join` stores the exit status of a process that has exited, and stores nothing of
one that a signal has killed; `run` then still finds the 0 that it has put there.
-/

namespace Chronos.Run

open Taskset

/-- How a process ends: `exit` with some code, or a signal. -/
inductive Termination
  | exited (code : Int)
  | killed (signal : Nat) (pos : 0 < signal) (le : signal ≤ 64) (core : Bool)
  deriving DecidableEq, Repr

namespace Termination

/-- The status that `waitpid` stores. Of the exit code there are 8 bits in it. -/
def waitStatus : Termination → Nat
  | exited code => (code % 256).toNat * 256
  | killed signal _ _ core => signal + if core then 128 else 0

/-- The process exits with status 0. -/
def normal : Termination → Bool
  | exited code => code % 256 = 0
  | killed .. => false

/-- The process exits with another status. -/
def failed : Termination → Bool
  | exited code => code % 256 ≠ 0
  | killed .. => false

def signaled : Termination → Bool
  | exited _ => false
  | killed .. => true

theorem normal_eq_false_iff (x : Termination) :
    x.normal = false ↔ x.failed = true ∨ x.signaled = true := by
  cases x <;> simp [normal, failed, signaled]

end Termination

/-- `WIFEXITED(status)` -/
def wifexited (status : Nat) : Bool := status % 128 = 0

/-- `WEXITSTATUS(status)` -/
def wexitstatus (status : Nat) : Nat := status / 256 % 256

/-- What a call of `waitpid` answers: it is interrupted by a signal, fails otherwise, or
returns the process with its status. -/
inductive Waited
  | interrupted
  | failed
  | reaped (status : Nat)
  deriving DecidableEq, Repr

/-- `tgroup_join`: what it returns, and `*ret` after it. There is no result while the
process runs. -/
def tgroupJoin (ret : Nat) : List Waited → Option (Int × Nat)
  | [] => none
  | .interrupted :: answers => tgroupJoin ret answers
  | .failed :: _ => some (-1, ret)
  | .reaped status :: _ => some (0, if wifexited status then wexitstatus status else ret)

/-- The message for a group that has failed. -/
def nonZeroStatus : String := "tgroup_join joined task group leader process with non-zero status."

/-- The parent in `run`, for one group leader; an error is the message of `fatal_error`. -/
def joinGroup (answers : List Waited) : Option (Except String Unit) := do
  let (ret, status) ← tgroupJoin 0 answers
  if ret ≠ 0 then
    return .error "Failed to tgroup_join one of the task group leader processes."
  else if status ≠ 0 then
    return .error nonZeroStatus
  else return .ok ()

section

variable (ts : TaskArray) (answers : Fin ts.tasks.length → List Waited)

/-- The loop of `run` that waits until all the thread groups are done. -/
def joinGroups : List (Fin ts.tasks.length) → Option (Except String Unit)
  | [] => some (.ok ())
  | t :: rest =>
    if ts.leader t = t then do
      match ← joinGroup (answers t) with
      | .error msg => return .error msg
      | .ok () => joinGroups rest
    else joinGroups rest

/-- The end of `run`, from the join loop on, where `after` are the tasks as the groups have
left them: the message of `fatal_error`, or the statistics that are printed. -/
def endOfRun (after : List Task) : Option (Except String SysStats) := do
  match ← joinGroups ts answers (List.finRange ts.tasks.length) with
  | .error msg => return .error msg
  | .ok () => return .ok (after.foldl accumulate clearCounters)

end

/-! ## Joining a group -/

/-- The calls of `waitpid` for a process that ends so: they may be interrupted, and then
they return it. -/
def Reaps (x : Termination) (answers : List Waited) : Prop :=
  ∃ k later, answers = List.replicate k .interrupted ++ .reaped x.waitStatus :: later

section

variable {x : Termination} {answers : List Waited}

theorem tgroupJoin_interrupted (k ret : Nat) :
    tgroupJoin ret (List.replicate k .interrupted ++ answers) = tgroupJoin ret answers := by
  induction k with
  | zero => rfl
  | succ k ih => exact ih

theorem tgroupJoin_of_reaps {ret : Nat} (h : Reaps x answers) :
    tgroupJoin ret answers = some (0,
      if wifexited x.waitStatus then wexitstatus x.waitStatus else ret) := by
  obtain ⟨k, later, rfl⟩ := h
  rw [tgroupJoin_interrupted]
  rfl

/-- The status that `run` sees: that of a process that exits, and otherwise the 0 that it
started with. -/
theorem seenStatus_ne_zero_iff :
    (if wifexited x.waitStatus then wexitstatus x.waitStatus else 0) ≠ 0 ↔ x.failed = true := by
  cases x with
  | exited code =>
    have hexit : wifexited (Termination.exited code).waitStatus = true := by
      have hlow : (code % 256).toNat * 256 % 128 = 0 := by omega
      exact decide_eq_true hlow
    have hcode : (code % 256).toNat * 256 / 256 % 256 ≠ 0 ↔ code % 256 ≠ 0 := by omega
    rw [if_pos hexit]
    exact hcode.trans decide_eq_true_iff.symm
  | killed signal pos le core =>
    have hsignal : wifexited (Termination.killed signal pos le core).waitStatus = false := by
      have hlow : (signal + if core then 128 else 0) % 128 ≠ 0 := by
        split <;> omega
      exact decide_eq_false hlow
    simp [hsignal, Termination.failed]

/-- The parent dies of a group that has failed, and of no other. -/
theorem joinGroup_of_reaps (h : Reaps x answers) :
    joinGroup answers = some (if x.failed then .error nonZeroStatus else .ok ()) := by
  have hstatus := seenStatus_ne_zero_iff (x := x)
  rw [joinGroup, tgroupJoin_of_reaps h]
  by_cases hfailed : x.failed = true
  · have hne := hstatus.mpr hfailed
    simp only [Option.bind_eq_bind, Option.bind_some, ne_eq, not_true_eq_false, if_false]
    rw [if_pos hne, if_pos hfailed]
    rfl
  · have heq := not_imp_not.mpr hstatus.mp hfailed
    simp only [Option.bind_eq_bind, Option.bind_some, ne_eq, not_true_eq_false, if_false]
    rw [if_neg heq, if_neg hfailed]
    rfl

end

section

variable {ts : TaskArray} {answers : Fin ts.tasks.length → List Waited}
  {ends : Fin ts.tasks.length → Termination} {after : List Task}

/-- The join loop finds a failed group wherever it stands. -/
theorem joinGroups_of_reaps (h : ∀ t, Reaps (ends t) (answers t)) (l : List (Fin ts.tasks.length)) :
    joinGroups ts answers l = some (if ∃ t ∈ l, ts.leader t = t ∧ (ends t).failed = true then
      .error nonZeroStatus else .ok ()) := by
  induction l with
  | nil => simp [joinGroups]
  | cons t l ih =>
    rw [joinGroups]
    by_cases hleader : ts.leader t = t
    · rw [if_pos hleader, joinGroup_of_reaps (h t), ih]
      cases hfailed : (ends t).failed with
      | true => simp [hleader, hfailed]
      | false => simp [hfailed]
    · rw [if_neg hleader, ih]
      simp [hleader]

theorem endOfRun_of_reaps (h : ∀ t, Reaps (ends t) (answers t)) :
    endOfRun ts answers after = some (if ∃ t, ts.leader t = t ∧ (ends t).failed = true then
      .error nonZeroStatus else .ok (after.foldl accumulate clearCounters)) := by
  rw [endOfRun, joinGroups_of_reaps h]
  by_cases hfailed : ∃ t, ts.leader t = t ∧ (ends t).failed = true
  · simp [hfailed]
  · simp [hfailed]

end

/-! ## A crashed group -/

/-- **A crashed group is never reported as a result**: if the process of any group does not
exit with status 0, `run` ends in `fatal_error`. -/
def CrashIsFatal (ts : TaskArray) (ends : Fin ts.tasks.length → Termination) : Prop :=
  (∃ t, ts.leader t = t ∧ (ends t).normal = false) →
    ∀ answers after, (∀ t, Reaps (ends t) (answers t)) →
      ∃ msg, endOfRun ts answers after = some (.error msg)

theorem Reaps.single (x : Termination) : Reaps x [.reaped x.waitStatus] := ⟨0, [], rfl⟩

theorem crashIsFatal_iff (ts : TaskArray) (ends : Fin ts.tasks.length → Termination) :
    CrashIsFatal ts ends ↔
      (∃ t, ts.leader t = t ∧ (ends t).failed = true) ∨
        ∀ t, ts.leader t = t → (ends t).signaled = false := by
  constructor
  · intro h
    by_contra hcon
    push Not at hcon
    obtain ⟨hfailed, t, hleader, hsignal⟩ := hcon
    have hcrash : (ends t).normal = false :=
      (ends t).normal_eq_false_iff.mpr (.inr (by simpa using hsignal))
    have hreaps : ∀ t, Reaps (ends t) [.reaped (ends t).waitStatus] := fun t => .single _
    obtain ⟨msg, hmsg⟩ := h ⟨t, hleader, hcrash⟩ _ [] hreaps
    rw [endOfRun_of_reaps hreaps, if_neg (by simpa using hfailed)] at hmsg
    simp at hmsg
  · rintro h ⟨t, hleader, hcrash⟩ answers after hreaps
    have hfailed : ∃ t, ts.leader t = t ∧ (ends t).failed = true := by
      rcases h with hfailed | hnone
      · exact hfailed
      · refine ⟨t, hleader, ?_⟩
        rcases (ends t).normal_eq_false_iff.mp hcrash with hf | hs
        · exact hf
        · rw [hnone t hleader] at hs
          exact absurd hs (by decide)
    exact ⟨nonZeroStatus, by rw [endOfRun_of_reaps hreaps, if_pos hfailed]⟩

/-- **The run of an accepted file reports a crash exactly when** some group exits with a
status other than 0, or none is killed by a signal. -/
theorem crashIsFatal_of_initTasks {σ : Type} {A : Allocator σ} {m : Machine} {T : Tester σ}
    {options : Options} {heap : σ} {f : List Char}
    (h : initTasks A m (some f) (Tester.start options heap) = .ok T) :
    ∃ ts : TaskArray, ts.tasks = T.taskList ∧ ∀ ends : Fin ts.tasks.length → Termination,
      CrashIsFatal ts ends ↔
        (∃ t, ts.leader t = t ∧ (ends t).failed = true) ∨
          ∀ t, ts.leader t = t → (ends t).signaled = false := by
  obtain ⟨ts, hts⟩ := exists_taskArray h
  exact ⟨ts, hts, crashIsFatal_iff ts⟩

theorem crashIsFatal_threeTasks :
    ∃ ts : TaskArray, ts.tasks = threeTasksTester.taskList ∧
      ∀ ends : Fin ts.tasks.length → Termination,
        CrashIsFatal ts ends ↔
          (∃ t, ts.leader t = t ∧ (ends t).failed = true) ∨
            ∀ t, ts.leader t = t → (ends t).signaled = false :=
  crashIsFatal_of_initTasks initTasks_threeTasks

/-- All the groups die of `SIGSEGV`, and the statistics are printed. -/
theorem not_crashIsFatal_threeTasks :
    ¬ ∀ ts : TaskArray, ts.tasks = threeTasksTester.taskList →
      ∀ ends : Fin ts.tasks.length → Termination, CrashIsFatal ts ends := by
  intro h
  obtain ⟨ts, hts⟩ := exists_taskArray initTasks_threeTasks
  have hpos : 0 < ts.tasks.length := List.length_pos_iff.mpr ts.nonempty
  have hfatal := (crashIsFatal_iff ts fun _ => .killed 11 (by decide) (by decide) true).mp
    (h ts hts _)
  rcases hfatal with ⟨t, -, hfailed⟩ | hnone
  · exact absurd hfailed (by decide)
  · have hlead : ts.leader (ts.leader ⟨0, hpos⟩) = ts.leader ⟨0, hpos⟩ :=
      (ts.leader_eq_iff _ _).mpr (ts.threadGroup_leader _)
    exact absurd (hnone _ hlead) (by decide)

end Chronos.Run
