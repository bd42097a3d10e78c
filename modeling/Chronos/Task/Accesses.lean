import Mathlib.Data.List.Flatten
import Chronos.Lib.Access

/-!
# Which fields of a task a run reads

`run`, the functions under it and `cleanup_tasks`, as sequences of accesses to the fields of
one `struct task`. What goes on elsewhere, in other tasks and in the workload, decides how
often a loop is gone through and which way a branch goes, and is taken as it comes.
-/

namespace Chronos

open Lib Lib.FieldAccess

/-- The fields of `struct task`, and the entries of `my_locks` up to `num_my_locks`. -/
inductive TaskField
  | tester | thread | abortPointer | workloadData | workloadTgData | cachedSlope | next | taskId
  | threadId | numMyLocks | myLocks | lockEntries | cpuMask | threadGroup | groupLeader | period
  | periodTs | execTime | utility | huaUtility | taskWss | groupWss | lockedUsage | unlockedUsage
  | maxReleases | extraRelease | localStartTime | numReleases | numAborted | deadlinesMet
  | utilityAccrued | maxTardiness
  deriving DecidableEq, Repr

namespace TaskField

/-- Which functions `struct workload` has. -/
structure WorkloadCalls where
  initGroup : Bool
  initTask : Bool
  cleanupGroup : Bool
  cleanupTask : Bool
  deriving DecidableEq, Repr

/-- What stays the same over all runs: the workload, and whether the task leads its group. -/
structure Role where
  calls : WorkloadCalls
  leader : Bool
  deriving DecidableEq, Repr

/-- How a job ends. -/
inductive Outcome
  | uncounted
  | aborted
  | met
  | late (worst : Bool)
  deriving DecidableEq, Repr

/-- How the locks are taken in a job, with the rounds of `do_work` under each of them. -/
inductive LockCourse
  | off
  | nested (tries : Nat) (refused : Bool) (rounds unlocks : Nat)
  | single (rounds : List Nat) (refused : Bool)
  deriving DecidableEq, Repr

/-- The course of a job, which is a call of `task_instance`. -/
structure JobCourse where
  enableHua : Bool
  handler : Bool
  locks : LockCourse
  rounds : Nat
  outcome : Outcome
  deriving DecidableEq, Repr

/-- The course of a run: its jobs, and how often members of the group look at the leader. -/
structure RunCourse where
  verbose : Bool
  jobs : List JobCourse
  extra : Option JobCourse
  groupLooks : Nat
  deriving DecidableEq, Repr

section Jobs

variable (r : Role)

/-- `t->group_leader->workload_tg_data`, which is a field of `t` only in the leader. -/
def leadersTgData : List (FieldAccess TaskField) :=
  .read groupLeader :: if r.leader then [.read workloadTgData] else []

/-- `workload_do_work`, in whichever of its timing methods. -/
def workloadDoWork (rounds : Nat) : List (FieldAccess TaskField) :=
  [.read tester, .read cachedSlope] ++
    (List.range rounds).flatMap (fun _ =>
      [.read abortPointer, .read tester] ++ leadersTgData r ++ [.read workloadData]) ++
    [.read abortPointer]

def findJobDeadline : List (FieldAccess TaskField) :=
  [.read numReleases, .read period, .read tester]

def setupHuaAbortHandler (enableHua handler : Bool) : List (FieldAccess TaskField) :=
  .read tester :: (if enableHua then [.read huaUtility] else []) ++
    if enableHua && handler then [.read huaUtility, .read tester, .read tester] else []

/-- `t->my_locks[lock_num]` -/
def lockEntry : List (FieldAccess TaskField) := [.read myLocks, .read lockEntries]

/-- The locks of a job. The loop over them ends with its condition unless a lock is refused. -/
def takeLocks : LockCourse → List (FieldAccess TaskField)
  | .off => [.read tester, .read tester]
  | .nested tries refused rounds unlocks =>
    .read tester :: (List.range tries).flatMap (fun _ => .read numMyLocks :: lockEntry) ++
      (if refused then [] else [.read numMyLocks]) ++
      .read lockedUsage :: workloadDoWork r rounds ++
      (List.range unlocks).flatMap fun _ => lockEntry
  | .single rounds refused =>
    [.read tester, .read tester] ++ rounds.flatMap (fun k =>
      .read numMyLocks :: lockEntry ++ .read lockedUsage :: workloadDoWork r k ++ lockEntry) ++
      .read numMyLocks :: if refused then lockEntry else []

/-- The statistics of a job. -/
def countJob : Outcome → List (FieldAccess TaskField)
  | .uncounted => []
  | .aborted => [.read numAborted, .write numAborted]
  | .met => [.read deadlinesMet, .write deadlinesMet, .read utilityAccrued, .read utility,
      .write utilityAccrued]
  | .late worst => .read maxTardiness :: if worst then [.write maxTardiness] else []

def taskInstance (j : JobCourse) : List (FieldAccess TaskField) :=
  findJobDeadline ++ setupHuaAbortHandler j.enableHua j.handler ++
    [.read utility, .read periodTs, .read unlockedUsage, .read lockedUsage] ++
    takeLocks r j.locks ++ .read unlockedUsage :: workloadDoWork r j.rounds ++ countJob j.outcome

end Jobs

section Runs

variable (r : Role)

def clearTaskStats : List (FieldAccess TaskField) :=
  [.write numReleases, .write numAborted, .write deadlinesMet, .write utilityAccrued,
    .write maxTardiness]

def setLockUsage : List (FieldAccess TaskField) :=
  [.read execTime, .write unlockedUsage, .read execTime, .write lockedUsage]

def calculateReleases : List (FieldAccess TaskField) :=
  [.read period, .write maxReleases, .read period, .write extraRelease]

/-- The timing information that `run` generates for a task. -/
def generateTiming (verbose : Bool) : List (FieldAccess TaskField) :=
  clearTaskStats ++ setLockUsage ++ calculateReleases ++
    if verbose then [.read period, .read unlockedUsage, .read lockedUsage] else []

def setupAborts : List (FieldAccess TaskField) :=
  [.read tester, .write abortPointer, .read abortPointer]

def workloadInitTask : List (FieldAccess TaskField) :=
  [.read tester, .read taskWss, .read groupLeader] ++
    (if r.leader then [.read groupWss] else []) ++ .read tester ::
    (if r.calls.initTask then leadersTgData r ++ [.write workloadData] else []) ++
    [.read tester, .write cachedSlope, .read cachedSlope]

def workloadCleanupTask : List (FieldAccess TaskField) :=
  .read tester :: (if r.calls.cleanupTask then leadersTgData r ++ [.read workloadData] else []) ++
    [.write workloadData]

/-- The start of `start_task`, up to the barrier and the start time. -/
def prepareTask : List (FieldAccess TaskField) :=
  .write threadId :: setupAborts ++ [.read cpuMask] ++ workloadInitTask r ++
    [.read tester, .write localStartTime, .read tester, .write numReleases]

/-- The releases of `start_task`. -/
def releaseJobs (c : RunCourse) : List (FieldAccess TaskField) :=
  c.jobs.flatMap (fun j => [.read numReleases, .read maxReleases] ++ taskInstance r j ++
    [.read numReleases, .write numReleases]) ++
    [.read numReleases, .read maxReleases, .read extraRelease] ++
    c.extra.toList.flatMap (taskInstance r)

def workloadInitGroup : List (FieldAccess TaskField) :=
  [.read tester, .read groupLeader, .read tester, .read groupWss] ++
    if r.calls.initGroup then [.write workloadTgData] else []

def workloadCleanupGroup : List (FieldAccess TaskField) :=
  [.read tester, .read groupLeader] ++
    (if r.calls.cleanupGroup then [.read workloadTgData] else []) ++ [.write workloadTgData]

/-- What `start_task_group` and the other threads of the group do to the task before it
starts. The leader is looked at by the others, each of which is started by the leader. -/
def startTaskGroup (c : RunCourse) : List (FieldAccess TaskField) :=
  if r.leader then
    .read tester :: workloadInitGroup r ++ [.read threadGroup, .read groupLeader] ++
      (List.range c.groupLooks).flatMap fun _ => [.read groupWss, .read workloadTgData]
  else [.read threadGroup, .read groupLeader, .write thread]

/-- The loop of `run` that creates the groups, up to `start_task`. -/
def createThread (c : RunCourse) : List (FieldAccess TaskField) :=
  .read groupLeader :: (if r.leader then [.write thread] else []) ++ startTaskGroup r c

/-- The rest of `start_task_group`, when all of the group are done. -/
def endTaskGroup : List (FieldAccess TaskField) :=
  if r.leader then [.read threadGroup, .read groupLeader] ++ workloadCleanupGroup r
  else [.read threadGroup, .read groupLeader, .read thread]

/-- The loop of `run` that waits for the groups. -/
def joinThread : List (FieldAccess TaskField) :=
  .read groupLeader :: if r.leader then [.read thread] else []

/-- The sums that `run` takes. -/
def accumulate : List (FieldAccess TaskField) :=
  [.read maxReleases, .read deadlinesMet, .read maxReleases, .read utility, .read utilityAccrued,
    .read numAborted, .read maxTardiness]

/-- One run, as far as it concerns one task: `start_task` is what lies between `createThread`
and `endTaskGroup`. -/
def run (c : RunCourse) : List (FieldAccess TaskField) :=
  generateTiming c.verbose ++ (createThread r c ++ (prepareTask r ++
    (releaseJobs r c ++ workloadCleanupTask r ++ endTaskGroup r ++ joinThread r ++ accumulate)))

def cleanupTasks : List (FieldAccess TaskField) := [.read myLocks, .read myLocks]

/-- Any number of runs and the end of the test. -/
def life (runs : List RunCourse) : List (FieldAccess TaskField) :=
  runs.flatMap (run r) ++ cleanupTasks

end Runs

/-! ## The fields read first -/

section ReadFirst

variable {r : Role} {f : TaskField}

/-- The fields that a job reads. -/
def jobFields (r : Role) : List TaskField :=
  [tester, cachedSlope, abortPointer, groupLeader, workloadData, numReleases, period, huaUtility,
    utility, periodTs, unlockedUsage, lockedUsage, numMyLocks, myLocks, lockEntries, numAborted,
    deadlinesMet, utilityAccrued, maxTardiness] ++ if r.leader then [workloadTgData] else []

theorem readsIn_leadersTgData : ReadsIn (jobFields r) (leadersTgData r) := by
  unfold leadersTgData jobFields
  cases r.leader <;> simp

theorem readsIn_workloadDoWork (rounds : Nat) :
    ReadsIn (jobFields r) (workloadDoWork r rounds) := by
  simp [workloadDoWork, readsIn_leadersTgData]
  simp [jobFields]

theorem readsIn_takeLocks (locks : LockCourse) : ReadsIn (jobFields r) (takeLocks r locks) := by
  have hentry : ReadsIn (jobFields r) lockEntry := by simp [lockEntry, jobFields]
  have hcount : numMyLocks ∈ jobFields r := by simp [jobFields]
  have htester : tester ∈ jobFields r := by simp [jobFields]
  have husage : lockedUsage ∈ jobFields r := by simp [jobFields]
  cases locks with
  | off => simp [takeLocks, htester]
  | nested tries refused rounds unlocks =>
    cases refused <;>
      simp [takeLocks, readsIn_workloadDoWork, hentry, hcount, htester, husage]
  | single rounds refused =>
    cases refused <;>
      simp [takeLocks, readsIn_workloadDoWork, hentry, hcount, htester, husage]

theorem readsIn_countJob (outcome : Outcome) : ReadsIn (jobFields r) (countJob outcome) := by
  cases outcome with
  | late worst => cases worst <;> simp [countJob, jobFields]
  | _ => simp [countJob, jobFields]

theorem readsIn_taskInstance (j : JobCourse) : ReadsIn (jobFields r) (taskInstance r j) := by
  have hdeadline : ReadsIn (jobFields r) findJobDeadline := by simp [findJobDeadline, jobFields]
  have hhua : ReadsIn (jobFields r) (setupHuaAbortHandler j.enableHua j.handler) := by
    unfold setupHuaAbortHandler
    cases j.enableHua <;> cases j.handler <;> simp [jobFields]
  simp [taskInstance, hdeadline, hhua, readsIn_takeLocks, readsIn_workloadDoWork, readsIn_countJob]
  simp [jobFields]

/-- The releases read what a job reads and the number of releases. -/
theorem readsIn_releaseJobs (c : RunCourse) :
    ReadsIn (maxReleases :: extraRelease :: jobFields r) (releaseJobs r c) := by
  have hjob : ∀ j, ReadsIn (maxReleases :: extraRelease :: jobFields r) (taskInstance r j) :=
    fun j f hf => List.mem_cons_of_mem _ (List.mem_cons_of_mem _ (readsIn_taskInstance j f hf))
  simp [releaseJobs, hjob]
  simp [jobFields]

/-- The fields that have to be there before a run, and those that the workload leaves out. -/
def firstFields (r : Role) : List TaskField :=
  [tester, groupLeader, threadGroup, groupWss, cpuMask, taskWss, period, periodTs, execTime,
    utility, huaUtility, numMyLocks, myLocks, lockEntries] ++
    (if r.calls.initTask then [] else [workloadData]) ++
    (if r.leader && !r.calls.initGroup then [workloadTgData] else [])

/-- The fields after the timing information has been generated. -/
def timedFields (r : Role) : List TaskField :=
  [maxReleases, extraRelease, lockedUsage, unlockedUsage, numReleases, numAborted, deadlinesMet,
    utilityAccrued, maxTardiness] ++ firstFields r

/-- The fields after the group has been set up. -/
def groupedFields (r : Role) : List TaskField :=
  thread :: (if r.leader then [workloadTgData] else []) ++ timedFields r

/-- The fields once the task is ready for its releases. -/
def preparedFields (r : Role) : List TaskField :=
  [abortPointer, cachedSlope, workloadData] ++ groupedFields r

theorem definedIn_generateTiming (verbose : Bool) :
    DefinedIn (firstFields r) (generateTiming verbose) := by
  unfold generateTiming clearTaskStats setLockUsage calculateReleases firstFields
  cases verbose <;> simp

theorem write_mem_generateTiming (verbose : Bool) (h : f ∈ timedFields r) :
    f ∈ firstFields r ∨ .write f ∈ generateTiming verbose := by
  unfold timedFields at h
  unfold generateTiming clearTaskStats setLockUsage calculateReleases
  simp at h ⊢
  tauto

/-- The group data are there once `workload_init_group` has been called, if it does not leave
them out. -/
theorem write_mem_workloadInitGroup (hleader : r.leader = true) (h : f ∈ groupedFields r) :
    f ∈ thread :: timedFields r ∨ .write f ∈ workloadInitGroup r := by
  unfold groupedFields at h
  unfold workloadInitGroup
  cases hinit : r.calls.initGroup
  · have htg : workloadTgData ∈ timedFields r := by
      simp [timedFields, firstFields, hleader, hinit]
    simp only [hleader, if_true, List.cons_append, List.nil_append, List.mem_cons] at h ⊢
    rcases h with h | rfl | h
    · exact .inl (.inl h)
    · exact .inl (.inr htg)
    · exact .inl (.inr h)
  · simp [hleader] at h ⊢
    tauto

theorem definedIn_createThread (c : RunCourse) :
    DefinedIn (timedFields r) (createThread r c) := by
  cases hleader : r.leader
  · simp [createThread, startTaskGroup, hleader, timedFields, firstFields]
  · have hinit : DefinedIn (thread :: timedFields r) (workloadInitGroup r) := by
      cases hcall : r.calls.initGroup <;>
        simp [workloadInitGroup, hcall, timedFields, firstFields]
    have hmembers : DefinedIn (groupedFields r) ([.read threadGroup, .read groupLeader] ++
        (List.range c.groupLooks).flatMap fun _ => [.read groupWss, .read workloadTgData]) := by
      refine ReadsIn.definedIn ?_
      simp [groupedFields, timedFields, firstFields, hleader]
    have hgroup := hinit.append hmembers fun f hf => write_mem_workloadInitGroup hleader hf
    simp only [createThread, startTaskGroup, hleader, if_true, List.cons_append, List.nil_append,
      List.append_assoc] at hgroup ⊢
    refine ⟨?_, ?_, hgroup⟩ <;> simp [timedFields, firstFields]

theorem write_mem_createThread (c : RunCourse) (h : f ∈ groupedFields r) :
    f ∈ timedFields r ∨ .write f ∈ createThread r c := by
  cases hleader : r.leader
  · simp [groupedFields, hleader] at h
    simp [createThread, startTaskGroup, hleader]
    tauto
  · rcases write_mem_workloadInitGroup hleader h with h | h
    · simp [createThread, hleader] at h ⊢
      tauto
    · simp [createThread, startTaskGroup, hleader, h]

theorem definedIn_prepareTask : DefinedIn (groupedFields r) (prepareTask r) := by
  unfold prepareTask setupAborts workloadInitTask leadersTgData
  cases hleader : r.leader <;> cases hcall : r.calls.initTask <;>
    simp [groupedFields, timedFields, firstFields, hleader]

theorem write_mem_prepareTask (h : f ∈ preparedFields r) :
    f ∈ groupedFields r ∨ .write f ∈ prepareTask r := by
  unfold preparedFields at h
  unfold prepareTask setupAborts workloadInitTask
  cases hcall : r.calls.initTask
  · have hdata : workloadData ∈ groupedFields r := by
      simp [groupedFields, timedFields, firstFields, hcall]
    simp at h ⊢
    rcases h with rfl | rfl | rfl | h
    · simp
    · simp
    · exact .inl hdata
    · exact .inl h
  · simp at h ⊢
    tauto

/-- From the first release on there is nothing that is not there. -/
theorem readsIn_rest (c : RunCourse) : ReadsIn (preparedFields r)
    (releaseJobs r c ++ workloadCleanupTask r ++ endTaskGroup r ++ joinThread r ++ accumulate) := by
  have hjobs : ReadsIn (preparedFields r) (releaseJobs r c) := by
    refine (readsIn_releaseJobs c).mono ?_
    cases hleader : r.leader <;>
      simp [jobFields, preparedFields, groupedFields, timedFields, firstFields, hleader]
  have htask : ReadsIn (preparedFields r) (workloadCleanupTask r) := by
    unfold workloadCleanupTask leadersTgData
    cases hleader : r.leader <;> cases r.calls.cleanupTask <;>
      simp [preparedFields, groupedFields, timedFields, firstFields, hleader]
  have hgroup : ReadsIn (preparedFields r) (endTaskGroup r) := by
    unfold endTaskGroup workloadCleanupGroup
    cases hleader : r.leader <;> cases r.calls.cleanupGroup <;>
      simp [preparedFields, groupedFields, timedFields, firstFields, hleader]
  have hjoin : ReadsIn (preparedFields r) (joinThread r) := by
    unfold joinThread
    cases r.leader <;> simp [preparedFields, groupedFields, timedFields, firstFields]
  have hsums : ReadsIn (preparedFields r) accumulate := by
    simp [accumulate, preparedFields, groupedFields, timedFields, firstFields]
  simp only [readsIn_append]
  exact ⟨⟨⟨⟨hjobs, htask⟩, hgroup⟩, hjoin⟩, hsums⟩

/-- **A run** writes every other field before it reads it. -/
theorem definedIn_run (c : RunCourse) : DefinedIn (firstFields r) (run r c) := by
  have hprepared := definedIn_prepareTask.append (readsIn_rest (r := r) c).definedIn
    fun f hf => write_mem_prepareTask hf
  have hcreated := (definedIn_createThread c).append hprepared
    fun f hf => write_mem_createThread c hf
  exact (definedIn_generateTiming c.verbose).append hcreated
    fun f hf => write_mem_generateTiming c.verbose hf

theorem mem_firstFields_of_life {runs : List RunCourse} (h : ReadFirst f (life r runs)) :
    f ∈ firstFields r := by
  rcases readFirst_append.mp h with h | ⟨-, h⟩
  · obtain ⟨c, -, h⟩ := h.of_flatMap
    exact (definedIn_run c).mem h
  · have hcleanup : DefinedIn (firstFields r) cleanupTasks := by simp [cleanupTasks, firstFields]
    exact hcleanup.mem h

/-- A run of one job, not counted. -/
def oneJob : RunCourse where
  verbose := false
  jobs := []
  extra := some ⟨false, false, .off, 1, .uncounted⟩
  groupLooks := 0

/-- What the job reads and nothing before it writes has to be there. -/
theorem readFirst_oneJob (htiming : .write f ∉ generateTiming false)
    (hthread : .write f ∉ createThread r oneJob) (hprepare : .write f ∉ prepareTask r)
    (hjob : ReadFirst f (releaseJobs r oneJob)) : ReadFirst f (life r [oneJob]) := by
  have hrest : ReadFirst f (releaseJobs r oneJob ++ workloadCleanupTask r ++ endTaskGroup r ++
      joinThread r ++ accumulate) := by
    simp only [List.append_assoc]
    exact readFirst_append.mpr (.inl hjob)
  have hprepared := readFirst_append.mpr (.inr ⟨hprepare, hrest⟩)
  have hcreated := readFirst_append.mpr (.inr ⟨hthread, hprepared⟩)
  have hrun : ReadFirst f (run r oneJob) := readFirst_append.mpr (.inr ⟨htiming, hcreated⟩)
  refine readFirst_append.mpr (.inl ?_)
  rwa [List.flatMap_singleton]

theorem releaseJobs_oneJob :
    releaseJobs r oneJob = [.read numReleases, .read maxReleases, .read extraRelease] ++
      taskInstance r ⟨false, false, .off, 1, .uncounted⟩ := by
  simp [releaseJobs, oneJob]

/-- Without `init_task`, a job passes on a pointer that nobody has set. -/
theorem readFirst_workloadData (h : r.calls.initTask = false) :
    ReadFirst workloadData (life r [oneJob]) := by
  refine readFirst_oneJob ?_ ?_ ?_ ?_
  · simp [generateTiming, clearTaskStats, setLockUsage, calculateReleases]
  · cases hleader : r.leader <;> simp [createThread, startTaskGroup, workloadInitGroup, hleader]
  · cases hleader : r.leader <;> simp [prepareTask, setupAborts, workloadInitTask, h, hleader]
  · rw [releaseJobs_oneJob]
    cases hleader : r.leader <;>
      simp [taskInstance, findJobDeadline, setupHuaAbortHandler, takeLocks, workloadDoWork,
        leadersTgData, hleader]

/-- Without `init_group`, the leader does the same with the data of the group. -/
theorem readFirst_workloadTgData (hleader : r.leader = true) (h : r.calls.initGroup = false) :
    ReadFirst workloadTgData (life r [oneJob]) := by
  refine readFirst_oneJob ?_ ?_ ?_ ?_
  · simp [generateTiming, clearTaskStats, setLockUsage, calculateReleases]
  · simp [createThread, startTaskGroup, workloadInitGroup, oneJob, h, hleader]
  · cases hcall : r.calls.initTask <;>
      simp [prepareTask, setupAborts, workloadInitTask, leadersTgData, hcall, hleader]
  · rw [releaseJobs_oneJob]
    simp [taskInstance, findJobDeadline, setupHuaAbortHandler, takeLocks, workloadDoWork,
      leadersTgData, hleader]

end ReadFirst

end TaskField

end Chronos
