import Mathlib.Algebra.Order.BigOperators.Group.Finset
import Chronos.Run.Action

/-!
# Groups that fail before the barrier

A call that fails in a group process, in `start_task_group` or in one of its
threads, ends the whole process through `fatal_error`. The threads of the other
groups then wait at a barrier that cannot fill. The parent finds out only when it
comes to join the failed process, and it joins the processes in the order of the
tasks: it dies if the first one failed, and hangs if another one did.
-/

namespace Chronos.Run

open Chronos.Lib

/-- The state of a run in which calls may fail. -/
structure FState (S : Setup) where
  state : State S
  /-- The group processes that have ended in `fatal_error`. -/
  dead : S.Task → Bool
  parentDead : Bool

namespace FState

variable {S : Setup}

def start (S : Setup) : FState S := ⟨.start S, fun _ => false, false⟩

/-- `fatal_error` in the process of the leader `l`. `exit` flushes its copy of the
buffer; the message itself is left out. -/
def kill (s : FState S) (l : S.Task) : FState S :=
  { s with
    state := { s.state with file := s.state.file ++ s.state.procStdout l }
    dead := Function.update s.dead l true }

/-- A process can act. -/
def Alive (s : FState S) : Option S.Task → Prop
  | none => s.parentDead = false
  | some l => s.dead l = false

/-- The parent has printed the results, or it has died. -/
def Over (s : FState S) : Prop :=
  s.parentDead = true ∨ s.state.parent = .next ∨ s.state.parent = .exited

end FState

/-- A step of a run in which the groups of the leaders in `mayFail` may fail. -/
inductive FStep (S : Setup) (mayFail : S.Task → Prop) : FState S → FState S → Prop
  | act {s} (a : Action S) (hen : a.Enabled s.state) (halive : s.Alive a.process) :
    FStep S mayFail s { s with state := a.apply s.state }
  /-- `mlockall` in `tgroup_create`, after `fork` -/
  | failLock {s} (l : S.Task) (hf : mayFail l) (halive : s.Alive (some l))
    (hpc : s.state.proc l = .initGroup) : FStep S mayFail s (s.kill l)
  /-- `pthread_create` in `start_task_group` -/
  | failCreate {s} (l t : S.Task) (hf : mayFail l) (halive : s.Alive (some l))
    (hpc : s.state.proc l = .spawn t) (hm : S.IsMember l t) : FStep S mayFail s (s.kill l)
  /-- `setup_aborts`, `sched_setaffinity` or `workload_init_task` in `start_task` -/
  | failSetup {s} (t : S.Task) (hf : mayFail (S.groupLeader t))
    (halive : s.Alive (some (S.groupLeader t))) (hpc : s.state.thread t = .setup) :
    FStep S mayFail s (s.kill (S.groupLeader t))
  /-- `fork` in `tgroup_create` -/
  | failFork {s} (t : S.Task) (halive : s.Alive none) (hpc : s.state.parent = .create t)
    (hl : S.IsLeader t) : FStep S mayFail s { s with parentDead := true }
  /-- `tgroup_join` with a non-zero status -/
  | joinDead {s} (l : S.Task) (halive : s.Alive none) (hpc : s.state.parent = .join l)
    (hl : S.IsLeader l) (hd : s.dead l = true) : FStep S mayFail s { s with parentDead := true }

def FReachable (S : Setup) (mayFail : S.Task → Prop) : FState S → Prop :=
  Relation.ReflTransGen (FStep S mayFail) (FState.start S)

/-- **A failing group cannot hang the run**: until the parent has printed the
results or died, some process can take a step. -/
def NeverHangs (S : Setup) (mayFail : S.Task → Prop) : Prop :=
  ∀ s, FReachable S mayFail s → ¬s.Over → ∃ s', FStep S mayFail s s'

variable {S : Setup} {mayFail : S.Task → Prop} {s s' : FState S}

/-! ## The invariant -/

/-- The thread is past the barrier. -/
def ThreadPc.Released : ThreadPc → Prop
  | .absent => False
  | .setup => False
  | .barrier => False
  | _ => True

/-- The invariant of a batch with failures: a dead process has a thread that never
calls `pthread_barrier_wait`, and no thread gets past the barrier before all have
called it. -/
structure FInv (mayFail : S.Task → Prop) (s : FState S) : Prop where
  inv : Inv s.state
  failed : ∀ l, s.dead l = true → mayFail l ∧ S.IsLeader l ∧
    ∃ t, S.groupLeader t = l ∧ (s.state.thread t).arrivals = 0
  released : ∀ t, (s.state.thread t).Released → s.state.arrived = S.numTasks

theorem ThreadPc.arrivals_le (pc : ThreadPc) : pc.arrivals ≤ 1 := by
  cases pc <;> simp [arrivals]

/-- The barrier is full exactly when every thread has called it. -/
theorem Inv.arrived_eq_iff {s : State S} (h : Inv s) :
    s.arrived = S.numTasks ↔ ∀ t, (s.thread t).arrivals = 1 := by
  have hones : (∑ _t : S.Task, 1) = S.numTasks := by simp
  rw [h.arrived]
  constructor
  · intro hsum
    have hall := (Finset.sum_eq_sum_iff_of_le fun t _ => (s.thread t).arrivals_le).mp
      (hsum.trans hones.symm)
    exact fun t => hall t (Finset.mem_univ t)
  · intro hall
    rw [Finset.sum_congr rfl fun t _ => hall t, hones]

/-- A process that has exited has no thread left that has not arrived. -/
theorem Inv.arrivals_of_exited {s : State S} (h : Inv s) {t : S.Task}
    (hx : s.proc (S.groupLeader t) = .exited) : (s.thread t).arrivals = 1 := by
  rw [h.finished t (by rw [hx]; trivial)]
  rfl

theorem FInv.not_full (h : FInv mayFail s) {l : S.Task} (hd : s.dead l = true) :
    s.state.arrived ≠ S.numTasks := by
  obtain ⟨-, -, t, -, ht⟩ := h.failed l hd
  intro hfull
  have hone := h.inv.arrived_eq_iff.mp hfull t
  omega

theorem FInv.not_exited (h : FInv mayFail s) {l : S.Task} (hd : s.dead l = true) :
    s.state.proc l ≠ .exited := by
  obtain ⟨-, -, t, rfl, ht⟩ := h.failed l hd
  intro hx
  have hone := h.inv.arrivals_of_exited hx
  omega

/-- The parent never gets past a dead process. -/
theorem FInv.not_pastJoin (h : FInv mayFail s) {l : S.Task} (hd : s.dead l = true) :
    ¬s.state.parent.PastJoin l := by
  obtain ⟨-, hl, -⟩ := h.failed l hd
  exact fun hp => h.not_exited hd (h.inv.joined l hl hp)

/-- A thread of a process that does not act stays where it is, until the next run. -/
theorem ThreadMove.eq_of_process {a : Action S} {t : S.Task} {pc pc' : ThreadPc}
    (h : ThreadMove t a pc pc') (ha : a.process ≠ some (S.groupLeader t)) : pc' = pc := by
  cases h with
  | stay => rfl
  | spawn l hl => exact absurd (congrArg some hl) ha
  | spawned hl => exact absurd (congrArg some hl) ha
  | _ => exact absurd rfl ha

/-- The barrier stays full once a thread is past it. -/
theorem released_apply {s : State S} {a : Action S} (h : Inv s) (hen : a.Enabled s)
    (hrel : ∀ t, (s.thread t).Released → s.arrived = S.numTasks) (t : S.Task)
    (ht : ((a.apply s).thread t).Released) : (a.apply s).arrived = S.numTasks := by
  cases a with
  | arrive u =>
    have hzero : (s.thread u).arrivals = 0 := by
      rw [hen]
      rfl
    have hne : s.arrived ≠ S.numTasks := by
      intro hfull
      have hone := h.arrived_eq_iff.mp hfull u
      omega
    simp only [Action.apply, State.setThread, Function.update_apply] at ht
    grind [ThreadPc.Released]
  | pass u => exact hen.2
  | _ =>
    simp only [Action.Enabled] at hen
    simp only [Action.apply, State.setProc, State.setThread, State.startRun,
      Function.update_apply] at ht ⊢
    grind [ThreadPc.Released]

theorem FInv.act (h : FInv mayFail s) {a : Action S} (hen : a.Enabled s.state)
    (halive : s.Alive a.process) : FInv mayFail { s with state := a.apply s.state } where
  inv := Acts.inv h.inv ⟨hen, rfl⟩
  failed := by
    intro l hd
    obtain ⟨hf, hl, t, rfl, ht⟩ := h.failed l hd
    refine ⟨hf, hl, t, rfl, ?_⟩
    have hagain : a ≠ .again := by
      rintro rfl
      apply h.not_pastJoin hd
      rw [hen.1]
      trivial
    have hproc : a.process ≠ some (S.groupLeader t) := by
      intro hp
      rw [hp] at halive
      exact absurd hd (by simp [show s.dead (S.groupLeader t) = false from halive])
    have hmove : ThreadMove t a _ ((a.apply s.state).thread t) :=
      Acts.threadMove h.inv hagain ⟨hen, rfl⟩ t
    rw [hmove.eq_of_process hproc]
    exact ht
  released := released_apply h.inv hen h.released

/-- `fatal_error` in a process with a thread that has not arrived. -/
theorem FInv.kill (h : FInv mayFail s) {l t : S.Task} (hf : mayFail l) (hl : S.IsLeader l)
    (ht : S.groupLeader t = l) (hzero : (s.state.thread t).arrivals = 0) :
    FInv mayFail (s.kill l) where
  inv := ⟨h.inv.runRange, h.inv.jobRange, h.inv.parentRange, h.inv.procRange, h.inv.forked,
    h.inv.joined, h.inv.started, h.inv.finished, h.inv.arrived, h.inv.swapped⟩
  failed := by
    intro k hd
    by_cases hk : k = l
    · subst hk
      exact ⟨hf, hl, t, ht, hzero⟩
    · simp only [FState.kill, Function.update_of_ne hk] at hd
      exact h.failed k hd
  released := h.released

theorem FInv.parentDies (h : FInv mayFail s) : FInv mayFail { s with parentDead := true } :=
  ⟨h.inv, h.failed, h.released⟩

theorem FInv.step (h : FInv mayFail s) (hs : FStep S mayFail s s') : FInv mayFail s' := by
  cases hs with
  | act a hen halive => exact h.act hen halive
  | failLock l hf _ hpc =>
    have hl := h.inv.isLeader (l := l) (by simp [hpc])
    have habs : s.state.thread l = .absent := by
      apply h.inv.thread_absent
      rw [hl, hpc]
      exact id
    exact h.kill hf hl hl (by rw [habs]; rfl)
  | failCreate l t hf _ hpc hm =>
    have hl := h.inv.isLeader (l := l) (by simp [hpc])
    have habs := h.inv.spawn_absent hpc hm
    exact h.kill hf hl (Setup.leader_eq_of_member hl hm) (by rw [habs]; rfl)
  | failSetup t hf _ hpc => exact h.kill hf (S.isLeader_groupLeader t) rfl (by rw [hpc]; rfl)
  | failFork => exact h.parentDies
  | joinDead => exact h.parentDies

theorem FInv.start : FInv mayFail (FState.start S) := ⟨Inv.start, nofun, nofun⟩

theorem FInv.of_reachable (h : FReachable S mayFail s) : FInv mayFail s := by
  induction h with
  | refl => exact .start
  | tail _ hs ih => exact ih.step hs

/-- A dead process has not let the parent come to the results. -/
theorem FInv.not_over (h : FInv mayFail s) {l : S.Task} (hd : s.dead l = true)
    (hp : s.parentDead = false) : ¬s.Over := by
  have hpast := h.not_pastJoin hd
  rintro (hdead | hnext | hexit)
  · rw [hp] at hdead
    cases hdead
  · rw [hnext] at hpast
    exact hpast trivial
  · rw [hexit] at hpast
    exact hpast trivial

/-! ## Failures of the first group only -/

/-- The parent that finds the first group dead dies. -/
theorem FInv.parent_step (h : FInv mayFail s) {l : S.Task} (hd : s.dead l = true)
    (hp : s.parentDead = false) (hfirst : ∀ u, S.IsLeader u → l ≤ u) :
    ∃ s', FStep S mayFail s s' := by
  obtain ⟨-, hl, -⟩ := h.failed l hd
  have hpast := h.not_pastJoin hd
  have hrange := h.inv.parentRange
  cases hpc : s.state.parent with
  | create i =>
    rw [hpc] at hrange
    rcases Nat.lt_or_eq_of_le hrange with hlt | rfl
    · by_cases hi : S.IsLeader ⟨i, hlt⟩
      · exact ⟨_, .act (.fork ⟨i, hlt⟩) ⟨hpc, hi⟩ hp⟩
      · exact ⟨_, .act (.forkSkip ⟨i, hlt⟩) ⟨hpc, hi⟩ hp⟩
    · exact ⟨_, .act .forked hpc hp⟩
  | join i =>
    rw [hpc] at hpast
    rcases Nat.lt_or_eq_of_le (Nat.not_lt.mp hpast) with hlt | heq
    · have hi : ¬S.IsLeader ⟨i, hlt.trans l.isLt⟩ :=
        fun hi => Nat.not_lt.mpr (hfirst _ hi) hlt
      exact ⟨_, .act (.joinSkip ⟨i, hlt.trans l.isLt⟩) ⟨hpc, hi⟩ hp⟩
    · exact ⟨_, .joinDead l hp (heq ▸ hpc) hl hd⟩
  | print => exact ⟨_, .act .print hpc hp⟩
  | next =>
    rw [hpc] at hpast
    exact absurd trivial hpast
  | exited =>
    rw [hpc] at hpast
    exact absurd trivial hpast

theorem neverHangs_of_first
    (hfirst : ∀ l, S.IsLeader l → mayFail l → ∀ u, S.IsLeader u → l ≤ u) :
    NeverHangs S mayFail := by
  intro s hs hover
  have h := FInv.of_reachable hs
  have hp : s.parentDead = false := by
    by_contra hdead
    exact hover (.inl (by simpa using hdead))
  by_cases hd : ∃ l, s.dead l = true
  · obtain ⟨l, hd⟩ := hd
    obtain ⟨hf, hl, -⟩ := h.failed l hd
    exact h.parent_step hd hp (hfirst l hl hf)
  · obtain ⟨s', hs'⟩ := h.inv.progress fun hx => hover (.inr (.inr hx))
    obtain ⟨a, hen, -⟩ := step_iff.mp hs'
    refine ⟨_, .act a hen ?_⟩
    cases hproc : a.process with
    | none => exact hp
    | some l => exact Bool.eq_false_iff.mpr (not_exists.mp hd l)

/-! ## A failure of another group -/

/-- The parent alone can run through its first loop. -/
theorem exists_create (mayFail : S.Task → Prop) {i : Nat} (hi : i ≤ S.numTasks) :
    ∃ s : FState S, FReachable S mayFail s ∧ s.state.parent = .create i ∧
      s.dead = (fun _ => false) ∧ s.parentDead = false := by
  induction i with
  | zero => exact ⟨.start S, .refl, rfl, rfl, rfl⟩
  | succ i ih =>
    obtain ⟨s, hs, hpc, hdead, hp⟩ := ih (Nat.le_of_succ_le hi)
    by_cases hl : S.IsLeader ⟨i, hi⟩
    · exact ⟨_, hs.tail (.act (.fork ⟨i, hi⟩) ⟨hpc, hl⟩ hp), rfl, hdead, hp⟩
    · exact ⟨_, hs.tail (.act (.forkSkip ⟨i, hi⟩) ⟨hpc, hl⟩ hp), rfl, hdead, hp⟩

/-- The group of `l` and nothing else has failed. -/
def FState.OnlyFailed (s : FState S) (l : S.Task) : Prop :=
  (∀ k, s.dead k = true ↔ k = l) ∧ s.parentDead = false

theorem exists_onlyFailed {l : S.Task} (hl : S.IsLeader l) (hf : mayFail l) :
    ∃ s : FState S, FReachable S mayFail s ∧ s.OnlyFailed l := by
  obtain ⟨s, hs, hpc, hdead, hp⟩ := exists_create mayFail l.isLt.le
  have hfork : FStep S mayFail s { s with state := (Action.fork l).apply s.state } :=
    .act (.fork l) ⟨hpc, hl⟩ hp
  refine ⟨_, (hs.tail hfork).tail (.failLock l hf (congrFun hdead l) ?_), ?_, hp⟩
  · simp [Action.apply, State.setProc]
  · intro k
    simp [FState.kill, hdead, Function.update_apply]

/-- No process can go on. -/
def FState.Stuck (s : FState S) : Prop := ∀ a : Action S, a.Enabled s.state → ¬s.Alive a.process

/-- The other groups go on until they cannot. -/
theorem exists_stuck {l : S.Task} (hs : FReachable S mayFail s) (ho : s.OnlyFailed l) :
    ∃ s', FReachable S mayFail s' ∧ s'.OnlyFailed l ∧ s'.Stuck := by
  induction hr : s.state.rank using Nat.strong_induction_on generalizing s with
  | _ r ih =>
    by_cases hstuck : s.Stuck
    · exact ⟨s, hs, ho, hstuck⟩
    · simp only [FState.Stuck, not_forall, not_not] at hstuck
      obtain ⟨a, hen, halive⟩ := hstuck
      have h := FInv.of_reachable hs
      have hnext : s.state.parent ≠ .next :=
        fun hn => h.not_over ((ho.1 l).mpr rfl) ho.2 (.inr (.inl hn))
      have hlt := h.inv.rank_step (Acts.step ⟨hen, rfl⟩) hnext
      exact ih _ (hr ▸ hlt) (hs.tail (.act a hen halive)) ho rfl

/-- A thread past the barrier is one of a full barrier. -/
theorem FInv.released_done (h : FInv mayFail s) {t : S.Task}
    (hx : s.state.proc (S.groupLeader t) = .exited) : s.state.arrived = S.numTasks := by
  apply h.released t
  rw [h.inv.finished t (by rw [hx]; trivial)]
  trivial

/-- When no process can go on, and a group has failed that is not the first, no call
can fail any more either. -/
theorem FInv.hangs (h : FInv mayFail s) {l u : S.Task} (ho : s.OnlyFailed l) (hstuck : s.Stuck)
    (hu : S.IsLeader u) (hlt : u < l) : ¬∃ s', FStep S mayFail s s' := by
  have hdead : s.dead l = true := (ho.1 l).mpr rfl
  rintro ⟨s', hs'⟩
  cases hs' with
  | act a hen halive => exact hstuck a hen halive
  | failLock k _ halive hpc => exact hstuck (.initGroup k) hpc halive
  | failCreate k t _ halive hpc hm => exact hstuck (.spawn k t) ⟨hpc, hm⟩ halive
  | failSetup t _ halive hpc => exact hstuck (.arrive t) hpc halive
  | failFork t halive hpc hl => exact hstuck (.fork t) ⟨hpc, hl⟩ halive
  | joinDead k _ hpc hl hd =>
    -- the parent waits for `u` first, whose threads are at the barrier
    obtain rfl : k = l := (ho.1 k).mp hd
    have hexit : s.state.proc u = .exited := h.inv.joined u hu (by rw [hpc]; exact hlt)
    exact h.not_full hdead (h.released_done (t := u) (by rw [hu]; exact hexit))

/-- **A failure of any other group can hang the run.** -/
theorem exists_hang {l u : S.Task} (hl : S.IsLeader l) (hf : mayFail l) (hu : S.IsLeader u)
    (hlt : u < l) : ¬NeverHangs S mayFail := by
  intro hnever
  obtain ⟨s₁, hs₁, ho₁⟩ := exists_onlyFailed hl hf
  obtain ⟨s, hs, ho, hstuck⟩ := exists_stuck hs₁ ho₁
  have h := FInv.of_reachable hs
  exact h.hangs ho hstuck hu hlt (hnever s hs (h.not_over ((ho.1 l).mpr rfl) ho.2))

/-- **A run never hangs** exactly when no group may fail but the one the parent joins
first. -/
theorem neverHangs_iff (S : Setup) (mayFail : S.Task → Prop) : NeverHangs S mayFail ↔
    ∀ l, S.IsLeader l → mayFail l → ∀ u, S.IsLeader u → l ≤ u := by
  constructor
  · intro hnever l hl hf u hu
    by_contra hlt
    exact exists_hang hl hf hu (not_le.mp hlt) hnever
  · exact neverHangs_of_first

/-- Two groups of one task each. -/
def twoGroups : Setup where
  numTasks := 2
  numTasks_pos := Nat.two_pos
  threadGroup t := t
  groupLeader t := t
  leader_iff _ _ := Fin.ext_iff
  leader_group _ := rfl
  jobs _ := 1
  runs := 1
  runs_pos := Nat.one_pos
  warnings := []

/-- The second group fails, and the parent waits for the first one. -/
theorem not_neverHangs_twoGroups : ¬NeverHangs twoGroups fun _ => True :=
  exists_hang (l := (1 : Fin 2)) (u := (0 : Fin 2)) rfl trivial rfl (by decide)

end Chronos.Run
