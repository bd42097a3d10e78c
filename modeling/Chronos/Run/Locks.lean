import Mathlib.Data.Fin.VecNotation
import Mathlib.Tactic.FinCases
import Chronos.Lib.Standstill
import Chronos.Task.Locking

/-!
# The tasks of a run and their mutexes

The lock calls of all jobs of all tasks, in any interleaving. A job locks the mutexes of
`my_locks` in the order of the taskset file, so that whether tasks can wait for each other for
ever is decided by that file alone.
-/

namespace Chronos.Run

open Lib Lib.Deadlock

variable {ι β : Type*}

/-- The lock calls of a task's jobs, without those that fail. They depend on the task through
`my_locks` alone, which no job changes. -/
def lockCalls (T : Test) (t : Task) (jobs : List JobEnv) : List (Bracket Int) :=
  jobs.flatMap fun env => (segment T env t).brackets

/-- All tasks before their first job, and all mutexes free. -/
def startJobs (T : Test) (tasks : ι → Task) (jobs : ι → List JobEnv) : Deadlock.State ι Int :=
  .start fun i => lockCalls T (tasks i) (jobs i)

/-! ## The lock calls of one job -/

variable {T : Test} {env : JobEnv} {t : Task}

theorem brackets_andThen_right {a b : Trace} (hb : b.brackets = []) :
    (a.andThen b).brackets = a.brackets := by
  cases ha : a.crashed
  · rw [Trace.brackets_andThen ha, hb, List.append_nil]
  · rw [Trace.andThen, if_pos ha]

theorem brackets_segment (T : Test) (env : JobEnv) (t : Task) :
    (segment T env t).brackets = (criticalSections T.options.locking env t).brackets := by
  have hbefore : ((setupHuaAbortHandler T t).andThen (.emit (.beginRtseg TASK_RUN_PRIO t.utility
      (t.findJobDeadline T.globalStartTime) t.periodTs t.declaredUsage))).brackets = [] := by
    rw [brackets_andThen_right rfl, brackets_setupHuaAbortHandler]
  unfold segment
  rw [brackets_andThen_right rfl, brackets_andThen_right rfl, Trace.brackets_andThen (by simp),
    hbefore, List.nil_append]

/-- What a job locks, with its first lock call. -/
theorem brackets_nestedLocking (h : 0 < acquired env 0 t.myLocks) :
    (nestedLocking env t).brackets =
      (t.myLocks.take (acquired env 0 t.myLocks)).map .acquire ++
        (t.myLocks.take (acquired env 0 t.myLocks)).reverse.map .release := by
  have hle : acquired env 0 t.myLocks ≤ t.myLocks.length := acquired_le 0 t.myLocks
  have hlast : ((lockLoop env 0 t.myLocks env.last).2 + 1).toNat = acquired env 0 t.myLocks := by
    rw [last_lockLoop, if_neg (by omega)]
    omega
  unfold nestedLocking
  dsimp only
  rw [hlast, Trace.brackets_andThen (by simp), Trace.brackets_andThen (by simp),
    brackets_lockLoop, (unlockLoop_spec t.myLocks _ hle).2, Trace.brackets_doWork, List.append_nil]

theorem acquired_of_lockOk (i : Nat) (ms : List Int) (hok : ∀ k, env.lockOk k = true) :
    acquired env i ms = ms.length := by
  induction ms generalizing i with
  | nil => rfl
  | cons m ms ih => rw [acquired, if_pos (hok i), ih, List.length_cons]

/-- A job that locks is one round of a part of its list. -/
theorem exists_brackets_segment (hmy : 0 < t.numMyLocks) (hok : env.lockOk 0 = true) :
    ∃ n, (segment T env t).brackets =
      (t.myLocks.take n).map .acquire ++ (t.myLocks.take n).reverse.map .release := by
  rw [brackets_segment, criticalSections_eq]
  by_cases hl : T.options.locking &&& NESTED_LOCKING = 0
  · exact ⟨0, by simp [hl]⟩
  · refine ⟨acquired env 0 t.myLocks, ?_⟩
    rw [if_pos hl]
    exact brackets_nestedLocking ((acquired_pos_iff t.myLocks).mpr ⟨hmy, hok⟩)

/-- A job without mutexes makes no lock call: what it may unlock is behind its empty list. -/
theorem brackets_nestedLocking_nil (h : t.myLocks = []) : (nestedLocking env t).brackets = [] := by
  have hunlock (n : Nat) : (unlockLoop [] n).brackets = [] := by
    cases n with
    | zero => rfl
    | succ n => rfl
  unfold nestedLocking
  rw [h, brackets_andThen_right (hunlock _), lockLoop, Trace.brackets_andThen rfl,
    Trace.brackets_nil, Trace.brackets_doWork, List.append_nil]

/-- Where all lock calls succeed a job takes all of its list, and gives it back. -/
theorem brackets_nestedLocking_of_lockOk (hok : ∀ k, env.lockOk k = true) :
    (nestedLocking env t).brackets =
      t.myLocks.map .acquire ++ t.myLocks.reverse.map .release := by
  have hall := acquired_of_lockOk 0 t.myLocks hok
  cases hlocks : t.myLocks with
  | nil => rw [brackets_nestedLocking_nil hlocks, List.map_nil, List.reverse_nil, List.map_nil,
      List.append_nil]
  | cons m ms =>
    have hpos : 0 < acquired env 0 t.myLocks := by
      rw [hall, hlocks]
      exact Nat.succ_pos _
    rw [brackets_nestedLocking hpos, hall, List.take_length, hlocks]

/-- Where all lock calls succeed the jobs take all of the list in rounds. -/
theorem lockCalls_eq {jobs : List JobEnv} (hlocking : T.options.locking &&& NESTED_LOCKING ≠ 0)
    (hok : ∀ env ∈ jobs, ∀ k, env.lockOk k = true) :
    lockCalls T t jobs = rounds t.myLocks jobs.length := by
  induction jobs with
  | nil => rfl
  | cons env jobs ih =>
    rw [List.forall_mem_cons] at hok
    have hlater : jobs.flatMap (fun env => (segment T env t).brackets) =
        rounds t.myLocks jobs.length := ih hok.2
    rw [lockCalls, List.flatMap_cons, hlater, brackets_segment, criticalSections_eq,
      if_pos hlocking, brackets_nestedLocking_of_lockOk hok.1, List.length_cons, rounds]

/-! ## The lock calls of all jobs -/

section

variable [DecidableEq ι] {tasks : ι → Task} {jobs : ι → List JobEnv} {rank : Int → β}
  {s : Deadlock.State ι Int} {as : List ι}

theorem nested_lockCalls {jobs : List JobEnv}
    (hok : T.options.locking &&& NESTED_LOCKING = 0 ∨
      (0 < t.numMyLocks ∧ ∀ env ∈ jobs, env.lockOk 0 = true)) :
    Nested (lockCalls T t jobs) := by
  induction jobs with
  | nil => exact .nil
  | cons env jobs ih =>
    rw [List.forall_mem_cons] at hok
    have hjob := (balanced_iff T t env.lockOk).mpr
      (hok.imp id fun h => ⟨h.1, h.2.1⟩) env rfl
    exact hjob.2.append (ih (hok.imp id fun h => ⟨h.1, h.2.2⟩))

theorem ascending_lockCalls [Preorder β] {jobs : List JobEnv}
    (hasc : t.myLocks.Pairwise (rank · < rank ·))
    (hok : T.options.locking &&& NESTED_LOCKING = 0 ∨
      (0 < t.numMyLocks ∧ ∀ env ∈ jobs, env.lockOk 0 = true)) :
    Ascending rank [] (lockCalls T t jobs) := by
  induction jobs with
  | nil => trivial
  | cons env jobs ih =>
    rw [List.forall_mem_cons] at hok
    have hlater := ih (hok.imp id fun h => ⟨h.1, h.2.2⟩)
    rw [lockCalls] at hlater
    rw [lockCalls, List.flatMap_cons]
    rcases hok with hoff | ⟨hmy, hfirst, -⟩
    · have hnone : (segment T env t).brackets = [] := by
        rw [brackets_segment, criticalSections_eq, if_neg (not_not.mpr hoff), Trace.brackets_nil]
      rwa [hnone, List.nil_append]
    · obtain ⟨n, hn⟩ := exists_brackets_segment (T := T) hmy hfirst
      rw [hn]
      exact (ascending_round (hasc.sublist (List.take_sublist n _))).mpr hlater

/-- **Ordered lists never deadlock**: where every task lists its mutexes in ascending order of
one rank, no job ever unlocks a mutex that its task does not hold, no run of the lock calls is
longer than their number, and a run that cannot go on has finished all jobs and left all
mutexes free. -/
theorem ordered_locks_complete [Fintype ι] [LinearOrder β] (rank : Int → β)
    (hasc : ∀ i, (tasks i).myLocks.Pairwise (rank · < rank ·))
    (hok : T.options.locking &&& NESTED_LOCKING = 0 ∨
      ∀ i, 0 < (tasks i).numMyLocks ∧ ∀ env ∈ jobs i, env.lockOk 0 = true)
    (h : Path Deadlock.Step (startJobs T tasks jobs) as s) :
    (∀ i m rest, s.todo i = .release m :: rest → s.holder m = some i) ∧
      as.length ≤ ∑ i, (lockCalls T (tasks i) (jobs i)).length ∧
      ((∀ i s', ¬Deadlock.Step s i s') → (∀ i, s.todo i = []) ∧ ∀ m, s.holder m = none) := by
  have hok' := fun i => hok.imp (fun h => h) fun h => h i
  obtain ⟨held, hinv, hkeep⟩ := exists_inv (P := fun _ => Ascending rank)
    (fun _ => kept_ascending rank) (fun i => ascending_lockCalls (hasc i) (hok' i))
    (fun i => nested_lockCalls (hok' i)) h
  refine ⟨fun i m rest htodo => ?_, ?_, fun hend => ?_⟩
  · have hn := hinv.nested i
    rw [htodo] at hn
    obtain ⟨tail, htail, -⟩ := replay_release hn
    exact (hinv.holder_iff m i).mpr (by simp [htail])
  · have hlength := length_add_left h
    exact (Nat.le_add_right _ _).trans hlength.le
  · have hdone : ∀ i, s.todo i = [] := by
      intro i
      by_contra hi
      obtain ⟨j, s', hs⟩ := hinv.exists_step hkeep hi
      exact hend j s' hs
    refine ⟨hdone, fun m => ?_⟩
    cases hm : s.holder m with
    | none => rfl
    | some i =>
      have hn := hinv.nested i
      have hmem := (hinv.holder_iff m i).mp hm
      rw [hdone i, replay_nil, Option.some_inj] at hn
      rw [hn] at hmem
      cases hmem

/-- A job whose lock calls all succeed. -/
def plainJob : JobEnv := ⟨0, fun _ => true, fun _ => false, false, 0, 0, 0, 0⟩

/-- Two tasks of one job each, with these mutexes. -/
def twoTasks (locks locks' : List Int) : Fin 2 → Task := ![sampleTask locks, sampleTask locks']

/-- The first task has locked the one mutex that both use. -/
theorem ordered_locks_complete_two :
    let start := startJobs ⟨nestedOptions, 3, 0, ⟨0, 0⟩⟩ (twoTasks [0, 2] [0, 1])
      fun _ => [plainJob]
    let s : Deadlock.State (Fin 2) Int :=
      ⟨Function.update start.todo 0 [.acquire 2, .release 2, .release 0],
        Function.update start.holder 0 (some 0)⟩
    (∀ i m rest, s.todo i = .release m :: rest → s.holder m = some i) ∧
      1 ≤ ∑ i, (lockCalls ⟨nestedOptions, 3, 0, ⟨0, 0⟩⟩ (twoTasks [0, 2] [0, 1] i)
        [plainJob]).length ∧
      ((∀ i s', ¬Deadlock.Step s i s') → (∀ i, s.todo i = []) ∧ ∀ m, s.holder m = none) := by
  intro start s
  have hstep : Path Deadlock.Step start [0] s := Path.single (Deadlock.Step.acquire (by decide) rfl)
  exact ordered_locks_complete (fun m => m) (by decide) (.inr (by decide)) hstep

/-- **When tasks can deadlock.** With locking on and lock calls that succeed or wait, some
interleaving comes to a standstill with a job unfinished if and only if some tasks that have a
job can be stopped inside their lists, having locked different mutexes, each of them before one
that one of them has locked. -/
theorem deadlock_iff [Fintype ι] (hlocking : T.options.locking &&& NESTED_LOCKING ≠ 0)
    (hok : ∀ i, ∀ env ∈ jobs i, ∀ k, env.lockOk k = true) :
    (∃ as s, Path Deadlock.Step (startJobs T tasks jobs) as s ∧ Stuck s) ↔
      ∃ B pos, Jam (fun i => (tasks i).myLocks) B pos ∧ ∀ i ∈ B, jobs i ≠ [] := by
  have hstart : startJobs T tasks jobs =
      startRounds (fun i => (tasks i).myLocks) fun i => (jobs i).length := by
    unfold startJobs startRounds
    congr 1
    funext i
    exact lockCalls_eq hlocking (hok i)
  rw [hstart, stuck_iff_jam]
  simp only [List.length_pos_iff_ne_nil]

/-- Three tasks of one job each; the last one has no mutexes. -/
def withIdleTask (locks locks' : List Int) : Fin 3 → Task :=
  ![sampleTask locks, sampleTask locks', sampleTask []]

/-- The first two list two mutexes in opposite orders. -/
theorem deadlock_iff_opposite :
    ∃ as s, Path Deadlock.Step (startJobs ⟨nestedOptions, 2, 0, ⟨0, 0⟩⟩
      (withIdleTask [0, 1] [1, 0]) fun _ => [plainJob]) as s ∧ Stuck s := by
  refine (deadlock_iff (by decide) ?_).mpr ⟨{0, 1}, ![1, 1, 0], ⟨⟨0, by decide⟩, ?_, ?_, ?_⟩, ?_⟩
  · intro i env henv k
    rw [List.mem_singleton.mp henv]
    rfl
  · intro i hi
    fin_cases i <;> simp_all [withIdleTask, sampleTask]
  · intro i _ j _ a ha hb
    fin_cases i <;> fin_cases j <;> simp_all [withIdleTask, sampleTask]
  · intro i hi
    fin_cases i
    · exact ⟨1, rfl, 1, by decide, by decide⟩
    · exact ⟨0, rfl, 0, by decide, by decide⟩
    · simp at hi
  · intro i _
    exact List.cons_ne_nil _ _

end

end Chronos.Run
