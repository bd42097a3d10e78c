import Chronos.Run.Once
import Chronos.Run.Records

/-!
# Every job is released once

The jobs of a run, in the order of its actions: each is released once, after the jobs
before it and after all threads have come to the barrier, and the jobs of a group count
from one clock reading of the run.
-/

namespace Chronos.Run

open Chronos.Lib

variable {S : Setup} {s s' : State S} {a : Action S} {acts : List (Action S)}

namespace Action

/-- The call of `task_instance` for the job `k` of the task `t`. -/
def releases (t : S.Task) (k : Nat) : Action S → Bool
  | job u _ j => u = t ∧ j = k
  | _ => false

/-- The task `t` reads the clock. -/
def readsClock (t : S.Task) : Action S → Bool
  | clock u _ => u = t
  | _ => false

end Action

/-- **Each job once**, at its place. -/
structure EachJob (acts : List (Action S)) : Prop where
  once : ∀ t k, acts.countP (Action.releases t k) = if k < S.jobs t then 1 else 0
  inOrder : ∀ before t p k after, acts = before ++ .job t p k :: after →
    ∀ j, before.countP (Action.releases t j) = if j < k then 1 else 0
  barrier : ∀ before t p k after, acts = before ++ .job t p k :: after → ∀ u, .arrive u ∈ before
  clock : ∀ before t p k after, acts = before ++ .job t p k :: after →
    S.groupLeader p = S.groupLeader t ∧ before.countP (Action.readsClock p) = 1
  agree : ∀ t p k u q j, .job t p k ∈ acts → .job u q j ∈ acts →
    S.groupLeader t = S.groupLeader u → p = q

/-! ## What the threads have done -/

/-- The job `k` of a thread is behind it. -/
def ThreadPc.past (jobs k : Nat) : ThreadPc → Nat
  | .job j => if k < j then 1 else 0
  | .done => if k < jobs then 1 else 0
  | _ => 0

/-- The thread has read the clock. -/
def ThreadPc.clocked : ThreadPc → Nat
  | .timed => 1
  | .job _ => 1
  | .done => 1
  | _ => 0

/-- The thread is past the barrier. -/
def ThreadPc.Passed : ThreadPc → Prop
  | .passed => True
  | .timed => True
  | .job _ => True
  | .done => True
  | _ => False

theorem ThreadMove.past {t : S.Task} {pc pc' : ThreadPc} (h : ThreadMove t a pc pc') (k : Nat) :
    pc'.past (S.jobs t) k = pc.past (S.jobs t) k + if Action.releases t k a then 1 else 0 := by
  cases h with
  | stay _ hthread =>
    have hreleases : Action.releases t k a = false := by
      cases a <;> simp_all [Action.releases, Action.thread]
    simp [hreleases]
  | job p j =>
    simp only [ThreadPc.past, Action.releases, true_and]
    grind
  | _ => simp [ThreadPc.past, Action.releases]

theorem ThreadMove.clocked {t : S.Task} {pc pc' : ThreadPc} (h : ThreadMove t a pc pc') :
    pc'.clocked = pc.clocked + if Action.readsClock t a then 1 else 0 := by
  cases h with
  | stay _ hthread =>
    have hclock : Action.readsClock t a = false := by
      cases a <;> simp_all [Action.readsClock, Action.thread]
    simp [hclock]
  | _ => simp [ThreadPc.clocked, Action.readsClock]

/-! ## The barrier and the start time -/

/-- What holds of the barrier and the start times in every state. -/
structure ReleaseInv (s : State S) : Prop where
  /-- No thread is past the barrier before all have come to it. -/
  passed : ∀ t, (s.thread t).Passed → s.arrived = S.numTasks
  /-- The start time of a process is that of one of its threads. -/
  own : ∀ l p, s.proc l ≠ .absent → s.procStart l = some p → S.groupLeader p = l

theorem ReleaseInv.start : ReleaseInv (State.start S) where
  passed _ h := h.elim
  own _ _ h := absurd rfl h

theorem ThreadPc.arrivals_le_one (pc : ThreadPc) : pc.arrivals ≤ 1 := by
  cases pc <;> simp [ThreadPc.arrivals]

/-- When as many have arrived as there are tasks, all have. -/
theorem Inv.all_arrived (h : Inv s) (harr : s.arrived = S.numTasks) (t : S.Task) :
    (s.thread t).arrivals = 1 := by
  by_contra hne
  have hlt : (s.thread t).arrivals < 1 := lt_of_le_of_ne (ThreadPc.arrivals_le_one _) hne
  have hsum : ∑ u, (s.thread u).arrivals < ∑ _u : S.Task, 1 :=
    Finset.sum_lt_sum (fun u _ => ThreadPc.arrivals_le_one _) ⟨t, Finset.mem_univ t, hlt⟩
  rw [← h.arrived, harr, ← Finset.card_eq_sum_ones, Finset.card_fin] at hsum
  exact Nat.lt_irrefl _ hsum

theorem ReleaseInv.passed_step (h : ReleaseInv s) (hi : Inv s) (hs : Step S s s') :
    ∀ t, (s'.thread t).Passed → s'.arrived = S.numTasks := by
  intro t
  have hp := h.passed t
  cases hs with
  | arrive u hpc =>
    -- no thread arrives once another one is past the barrier
    have hnone : s.arrived ≠ S.numTasks := by
      intro harr
      have hone := hi.all_arrived harr u
      rw [hpc] at hone
      cases hone
    simp only [State.setThread, Function.update_apply]
    grind [ThreadPc.Passed]
  | _ =>
    simp only [State.setProc, State.setThread, State.startRun, Function.update_apply]
    grind [ThreadPc.Passed]

theorem ReleaseInv.own_step (h : ReleaseInv s) (hi : Inv s) (hst : StartInv s)
    (hs : Step S s s') :
    ∀ l p, s'.proc l ≠ .absent → s'.procStart l = some p → S.groupLeader p = l := by
  intro l p
  have ho := h.own l p
  have hglobal := hst.parent
  have hf := hi.forked
  have hlead := hi.started
  cases hs <;> simp only [State.setProc, State.setThread, State.startRun, Function.update_apply] <;>
    grind [ParentPc.PastCreate, ProcPc.Started, Option.or_eq_some_iff]

theorem ReleaseInv.of_reachable (h : Reachable S s) : ReleaseInv s := by
  induction h with
  | refl => exact .start
  | tail hpath hs ih =>
    have hi := Inv.of_reachable hpath
    exact ⟨ih.passed_step hi hs, ih.own_step hi (StartInv.of_reachable hpath) hs⟩

/-! ## A whole run -/

theorem RunActs.reachable (h : RunActs acts s) : Reachable S s := by
  obtain ⟨s₀, hs₀, -, hpath, -⟩ := h
  exact hpath.invariant hs₀ fun hs ha => hs.tail ha.step

/-- The state in which an action of a run is taken. -/
theorem RunActs.split {before after : List (Action S)}
    (h : RunActs (before ++ a :: after) s) : ∃ s₁, RunActs before s₁ ∧ a.Enabled s₁ := by
  obtain ⟨s₀, hs₀, hp₀, hpath, hagain⟩ := h
  obtain ⟨s₁, hbefore, hafter⟩ := hpath.split
  obtain ⟨s₂, ⟨henabled, -⟩, -⟩ := hafter.uncons
  exact ⟨s₁, ⟨s₀, hs₀, hp₀, hbefore, fun hn => hagain (List.mem_append_left _ hn)⟩, henabled⟩

theorem RunActs.countP_releases (h : RunActs acts s) (t : S.Task) (k : Nat) :
    acts.countP (Action.releases t k) = (s.thread t).past (S.jobs t) k :=
  h.countP_eq (m := fun s => (s.thread t).past (S.jobs t) k)
    (fun s₀ h₀ hp₀ => by simp [(h₀.at_create hp₀).2.1 t, ThreadPc.past])
    fun hi hn ha => (ha.threadMove hi hn t).past k

theorem RunActs.countP_readsClock (h : RunActs acts s) (t : S.Task) :
    acts.countP (Action.readsClock t) = (s.thread t).clocked :=
  h.countP_eq (m := fun s => (s.thread t).clocked)
    (fun s₀ h₀ hp₀ => by simp [(h₀.at_create hp₀).2.1 t, ThreadPc.clocked])
    fun hi hn ha => (ha.threadMove hi hn t).clocked

theorem RunActs.count_arrive (h : RunActs acts s) (t : S.Task) :
    acts.count (.arrive t) = (s.thread t).arrivals :=
  h.count_eq (m := fun s => (s.thread t).arrivals)
    (fun s₀ h₀ hp₀ => by simp [(h₀.at_create hp₀).2.1 t, ThreadPc.arrivals])
    fun hi hn ha => (ha.threadMove hi hn t).waits

/-- A process that is there stays, until the next run. -/
theorem Acts.proc_ne_absent (hi : Inv s) (hn : a ≠ .again) (ha : Acts s a s') {l : S.Task}
    (hl : s.proc l ≠ .absent) : s'.proc l ≠ .absent := by
  have hmove := ha.procMove hi hn l
  generalize s.proc l = pc, s'.proc l = pc' at hmove hl
  cases hmove <;> first | exact hl | nofun

/-- The start time that a job has counted from is that of its process, from then on. -/
theorem RunActs.procStart_of_job (h : RunActs acts s) {t p : S.Task} {k : Nat}
    (hmem : .job t p k ∈ acts) :
    s.proc (S.groupLeader t) ≠ .absent ∧ s.procStart (S.groupLeader t) = some p := by
  obtain ⟨s₀, hs₀, -, hpath, hagain⟩ := h
  induction hpath with
  | nil => cases hmem
  | @snoc acts s s' a hpath ha ih =>
    have hreach : Reachable S s := hpath.invariant hs₀ fun hs ha => hs.tail ha.step
    have hi := Inv.of_reachable hreach
    have hn : a ≠ .again := fun hn => hagain (by simp [hn])
    rcases List.mem_append.mp hmem with hmem | hmem
    · obtain ⟨hproc, hstart⟩ := ih hmem fun hn => hagain (List.mem_append_left _ hn)
      exact ⟨ha.proc_ne_absent hi hn hproc,
        (ha.start_kept hi (StartInv.of_reachable hreach) hn hproc hstart).1⟩
    · obtain rfl := (List.mem_singleton.mp hmem).symm
      have hproc := hi.proc_ne_absent (t := t) (by rw [ha.1.1]; nofun)
      exact ⟨ha.proc_ne_absent hi hn hproc,
        (ha.start_kept hi (StartInv.of_reachable hreach) hn hproc ha.1.2.2).1⟩

/-- **A run that comes to `print_results`** has released each job once, at its place. -/
theorem RunActs.eachJob (h : RunActs acts s) (hp : s.parent = .print) : EachJob acts := by
  have hdone : ∀ t : S.Task, s.thread t = .done :=
    Inv.all_done h.inv (by rw [hp]; exact fun _ => trivial)
  constructor
  · intro t k
    rw [h.countP_releases, hdone]
    rfl
  · rintro before t p k after rfl j
    obtain ⟨s₁, hbefore, hpc, -⟩ := h.split
    rw [hbefore.countP_releases, hpc]
    rfl
  · rintro before t p k after rfl u
    obtain ⟨s₁, hbefore, hpc, -⟩ := h.split
    have harr := (ReleaseInv.of_reachable hbefore.reachable).passed t (by rw [hpc]; trivial)
    have hone := hbefore.inv.all_arrived harr u
    rw [← hbefore.count_arrive] at hone
    exact List.count_pos_iff.mp (by omega)
  · rintro before t p k after rfl
    obtain ⟨s₁, hbefore, hpc, -, hstart⟩ := h.split
    have hproc := hbefore.inv.proc_ne_absent (t := t) (by rw [hpc]; nofun)
    have hswapped := (StartInv.of_reachable hbefore.reachable).winner _ p hproc hstart
    refine ⟨(ReleaseInv.of_reachable hbefore.reachable).own _ p hproc hstart, ?_⟩
    rw [hbefore.countP_readsClock]
    cases hpc' : s₁.thread p <;> simp_all [ThreadPc.clocked, ThreadPc.Swapped]
  · intro t p k u q j ht hu hgroup
    have hpt := (h.procStart_of_job ht).2
    have hqu := (h.procStart_of_job hu).2
    rw [hgroup, hqu] at hpt
    exact (Option.some.inj hpt).symm

theorem Step.run_le (hs : Step S s s') : s.run ≤ s'.run := by
  cases hs <;> simp [State.setProc, State.setThread, State.startRun]

/-- The actions between two states of one run. -/
theorem exists_path_of_run_eq (h : Relation.ReflTransGen (Step S) s s') (hrun : s'.run = s.run) :
    ∃ acts, Path Acts s acts s' ∧ .again ∉ acts := by
  have hle : ∀ {s'}, Relation.ReflTransGen (Step S) s s' → s.run ≤ s'.run := by
    intro s' h
    induction h with
    | refl => exact le_rfl
    | tail _ hs ih => exact ih.trans hs.run_le
  induction h with
  | refl => exact ⟨[], .nil, List.not_mem_nil⟩
  | tail hpath hs ih =>
    have heq := le_antisymm (hs.run_le.trans_eq hrun) (hle hpath)
    obtain ⟨acts, hacts, hagain⟩ := ih heq
    obtain ⟨a, ha⟩ := step_iff.mp hs
    refine ⟨acts ++ [a], hacts.snoc ha, fun hmem => ?_⟩
    rcases List.mem_append.mp hmem with hmem | hmem
    · exact hagain hmem
    · obtain rfl := List.mem_singleton.mp hmem
      obtain ⟨-, rfl⟩ := ha
      simp only [Action.apply, State.startRun] at hrun
      omega

theorem exists_runActs (S : Setup) :
    ∃ (acts : List (Action S)) (s : State S), RunActs acts s ∧ s.parent = .print := by
  obtain ⟨s, hpath, hp, hrun⟩ := (Inv.start (S := S)).exists_print nofun nofun
  obtain ⟨acts, hacts, hagain⟩ := exists_path_of_run_eq hpath hrun
  exact ⟨acts, s, ⟨_, .refl, rfl, hacts, hagain⟩, hp⟩

/-- A run of three tasks in two groups. -/
theorem RunActs.eachJob_threeTasks : ∃ (acts : List (Action Taskset.threeTasksSetup)) (s : _),
    RunActs acts s ∧ s.parent = .print ∧ EachJob acts := by
  obtain ⟨acts, s, h, hp⟩ := exists_runActs Taskset.threeTasksSetup
  exact ⟨acts, s, h, hp, RunActs.eachJob h hp⟩

end Chronos.Run
