import Chronos.Run.Action

/-!
# Every task is started and joined once

What the actions of a run amount to when the parent comes to `print_results`.
-/

namespace Chronos.Run

open Chronos.Lib

variable {S : Setup} {s s₀ : State S} {acts : List (Action S)}

/-- The actions of a run, from the loop that forks the group processes up to the
state `s`. -/
def RunActs (acts : List (Action S)) (s : State S) : Prop :=
  ∃ s₀, Reachable S s₀ ∧ s₀.parent = .create 0 ∧ Path Acts s₀ acts s ∧ .again ∉ acts

namespace Action

/-- The process `p` calls `start_task` for the task `t`: in a new thread, or itself
when it is the process of `t`. -/
def starts (t p : S.Task) : Action S → Bool
  | spawn l u => l = p ∧ u = t
  | spawned l => l = p ∧ l = t
  | _ => false

/-- A call of `pthread_barrier_wait`. -/
def isArrive : Action S → Bool
  | arrive _ => true
  | _ => false

end Action

/-- **Each process and thread once.** One process is forked and joined for each
thread group, `start_task` runs once for each task and in the process of its group,
the leader joins each other thread of its group once, and all tasks have called
`pthread_barrier_wait` when the first one gets past the barrier. -/
structure EachOnce (acts : List (Action S)) : Prop where
  forks : ∀ l, acts.count (.fork l) = if S.IsLeader l then 1 else 0
  joins : ∀ l, acts.count (.join l) = if S.IsLeader l then 1 else 0
  starts : ∀ t p, acts.countP (Action.starts t p) = if p = S.groupLeader t then 1 else 0
  ends : ∀ t, acts.count (.finishJobs t) = 1
  threadJoins : ∀ l t, acts.count (.joinThread l t) =
    if l = S.groupLeader t ∧ ¬S.IsLeader t then 1 else 0
  waits : ∀ t, acts.count (.arrive t) = 1
  release : ∀ before t after, acts = before ++ .pass t :: after →
    before.countP Action.isArrive = S.numTasks

/-! ## Counters -/

/-- How often the parent has joined the process of the leader `l`. -/
def ParentPc.joins (l : Nat) : ParentPc → Nat
  | .create _ => 0
  | .join i => if l < i then 1 else 0
  | _ => 1

/-- How often a process has joined the thread of its member `t`. -/
def ProcPc.joins (t : Nat) : ProcPc → Nat
  | .joining i => if t < i then 1 else 0
  | .cleanupGroup => 1
  | .exited => 1
  | _ => 0

/-- At the start of a run there is neither a process nor a thread. -/
theorem Inv.at_create (h : Inv s) (hp : s.parent = .create 0) :
    (∀ l, s.proc l = .absent) ∧ (∀ t, s.thread t = .absent) ∧ s.arrived = 0 := by
  have hproc : ∀ l, s.proc l = .absent := by
    intro l
    by_contra hne
    have hpast := ((h.forked l).mp hne).2
    rw [hp] at hpast
    exact Nat.not_lt_zero _ hpast
  have hthread : ∀ t, s.thread t = .absent := by
    intro t
    apply h.thread_absent
    rw [hproc]
    exact id
  refine ⟨hproc, hthread, ?_⟩
  rw [h.arrived]
  exact Finset.sum_eq_zero fun t _ => by rw [hthread t]; rfl

/-! ### What the moves add -/

section Counting

variable {a : Action S}

theorem ProcMove.forks {l : S.Task} {pc pc' : ProcPc} (h : ProcMove l a pc pc') :
    (if pc' = .absent then 0 else 1) =
      (if pc = .absent then 0 else 1) + if a = .fork l then 1 else 0 := by
  cases h with
  | stay _ hproc =>
    have hfork : a ≠ .fork l := by
      rintro rfl
      exact hproc rfl
    simp [hfork]
  | _ => simp

theorem ProcMove.threadJoins {l : S.Task} {pc pc' : ProcPc} (h : ProcMove l a pc pc')
    (t : S.Task) : (if l = S.groupLeader t ∧ ¬S.IsLeader t then pc'.joins t else 0) =
      (if l = S.groupLeader t ∧ ¬S.IsLeader t then pc.joins t else 0) +
        if a = .joinThread l t then 1 else 0 := by
  have hlt := t.isLt
  have hval : ∀ u : S.Task, u.val = t.val → u = t := fun u => Fin.ext
  cases h with
  | stay _ hproc =>
    have hjoin : a ≠ .joinThread l t := by
      rintro rfl
      exact hproc rfl
    simp [hjoin]
  | joinThreadSkip u hm =>
    have hmem : ¬S.IsLeader t → S.IsMember (S.groupLeader t) t := Setup.member_groupLeader
    grind [ProcPc.joins]
  | _ => grind [ProcPc.joins]

theorem ThreadMove.starts {t : S.Task} {pc pc' : ThreadPc} (h : ThreadMove t a pc pc')
    (p : S.Task) : (if p = S.groupLeader t ∧ pc' ≠ .absent then 1 else 0) =
      (if p = S.groupLeader t ∧ pc ≠ .absent then 1 else 0) +
        if Action.starts t p a then 1 else 0 := by
  cases h with
  | stay _ hthread =>
    have hstarts : Action.starts t p a = false := by
      cases a <;> simp_all [Action.starts, Action.thread]
    simp [hstarts]
  | spawn l hl => grind [Action.starts]
  | spawned hl => grind [Action.starts]
  | _ => simp [Action.starts]

theorem ThreadMove.ends {t : S.Task} {pc pc' : ThreadPc} (h : ThreadMove t a pc pc') :
    (if pc' = .done then 1 else 0) =
      (if pc = .done then 1 else 0) + if a = .finishJobs t then 1 else 0 := by
  cases h with
  | stay _ hthread =>
    have hfinish : a ≠ .finishJobs t := by
      rintro rfl
      exact hthread rfl
    simp [hfinish]
  | _ => simp

theorem ThreadMove.waits {t : S.Task} {pc pc' : ThreadPc} (h : ThreadMove t a pc pc') :
    pc'.arrivals = pc.arrivals + if a = .arrive t then 1 else 0 := by
  cases h with
  | stay _ hthread =>
    have harrive : a ≠ .arrive t := by
      rintro rfl
      exact hthread rfl
    simp [harrive]
  | _ => simp [ThreadPc.arrivals]

variable {s' : State S} (hn : a ≠ .again) (ha : Acts s a s')

include hn ha

theorem joins_step (l : S.Task) : (if S.IsLeader l then s'.parent.joins l else 0) =
    (if S.IsLeader l then s.parent.joins l else 0) + if a = .join l then 1 else 0 := by
  obtain ⟨hen, rfl⟩ := ha
  have hlt := l.isLt
  have hval : ∀ u : S.Task, u.val = l.val → u = l := fun u => Fin.ext
  cases a with
  | again => exact absurd rfl hn
  | _ =>
    simp only [Action.Enabled] at hen
    simp only [Action.apply, State.setProc, State.setThread]
    grind [ParentPc.joins]

theorem arrived_step : s'.arrived = s.arrived + if a.isArrive then 1 else 0 := by
  obtain ⟨-, rfl⟩ := ha
  cases a <;> first | exact absurd rfl hn | rfl

end Counting

/-! ## A whole run -/

/-- A counter that is zero at the start of a run, and that the actions in `p` raise
by one, counts them. -/
theorem RunActs.countP_eq {p : Action S → Bool} {m : State S → Nat} (h : RunActs acts s)
    (hzero : ∀ s₀ : State S, Inv s₀ → s₀.parent = .create 0 → m s₀ = 0)
    (hm : ∀ {s a s'}, Inv s → a ≠ .again → Acts s a s' → m s' = m s + if p a then 1 else 0) :
    acts.countP p = m s := by
  obtain ⟨s₀, hs₀, hp, hpath, hagain⟩ := h
  have hinv := Inv.of_reachable hs₀
  refine hpath.countP_eq (P := Inv) hinv (hzero s₀ hinv hp) Acts.inv ?_
  intro s a s' hmem hi ha
  exact hm hi (fun hn => hagain (hn ▸ hmem)) ha

theorem RunActs.count_eq {b : Action S} {m : State S → Nat} (h : RunActs acts s)
    (hzero : ∀ s₀ : State S, Inv s₀ → s₀.parent = .create 0 → m s₀ = 0)
    (hm : ∀ {s a s'}, Inv s → a ≠ .again → Acts s a s' →
      m s' = m s + if a = b then 1 else 0) :
    acts.count b = m s := by
  refine h.countP_eq hzero fun hi hn ha => ?_
  simpa using hm hi hn ha

theorem RunActs.inv (h : RunActs acts s) : Inv s := by
  obtain ⟨s₀, hs₀, -, hpath, -⟩ := h
  exact hpath.invariant (Inv.of_reachable hs₀) Acts.inv

/-- **A run that comes to `print_results`** has started and joined everything once. -/
theorem RunActs.eachOnce (h : RunActs acts s) (hp : s.parent = .print) : EachOnce acts := by
  have hi := h.inv
  have hexit : ∀ t : S.Task, s.proc (S.groupLeader t) = .exited :=
    fun t => hi.joined _ (S.isLeader_groupLeader t) (by rw [hp]; trivial)
  have hdone : ∀ t : S.Task, s.thread t = .done :=
    fun t => hi.finished t (by rw [hexit]; trivial)
  constructor
  · intro l
    rw [h.count_eq (m := fun s => if s.proc l = .absent then 0 else 1)
      (fun s₀ h₀ hp₀ => if_pos ((h₀.at_create hp₀).1 l))
      fun hi hn ha => (ha.procMove hi hn l).forks]
    have hfork := hi.forked l
    rw [hp] at hfork
    grind [ParentPc.PastCreate]
  · intro l
    rw [h.count_eq (m := fun s => if S.IsLeader l then s.parent.joins l else 0)
      (fun s₀ _ hp₀ => by simp [hp₀, ParentPc.joins]) fun _ hn ha => joins_step hn ha l, hp]
    rfl
  · intro t p
    rw [h.countP_eq (m := fun s => if p = S.groupLeader t ∧ s.thread t ≠ .absent then 1 else 0)
      (fun s₀ h₀ hp₀ => if_neg fun hne => hne.2 ((h₀.at_create hp₀).2.1 t))
      fun hi hn ha => (ha.threadMove hi hn t).starts p]
    simp [hdone]
  · intro t
    rw [h.count_eq (m := fun s => if s.thread t = .done then 1 else 0)
      (fun s₀ h₀ hp₀ => by simp [(h₀.at_create hp₀).2.1 t])
      fun hi hn ha => (ha.threadMove hi hn t).ends]
    simp [hdone]
  · intro l t
    rw [h.count_eq
      (m := fun s => if l = S.groupLeader t ∧ ¬S.IsLeader t then (s.proc l).joins t else 0)
      (fun s₀ h₀ hp₀ => by simp [(h₀.at_create hp₀).1 l, ProcPc.joins])
      fun hi hn ha => (ha.procMove hi hn l).threadJoins t]
    by_cases hl : l = S.groupLeader t ∧ ¬S.IsLeader t
    · simp [hl, hexit, ProcPc.joins]
    · simp [hl]
  · intro t
    rw [h.count_eq (m := fun s => (s.thread t).arrivals)
      (fun s₀ h₀ hp₀ => by simp [(h₀.at_create hp₀).2.1 t, ThreadPc.arrivals])
      fun hi hn ha => (ha.threadMove hi hn t).waits]
    simp [hdone, ThreadPc.arrivals]
  · rintro before t after rfl
    obtain ⟨s₀, hs₀, hp₀, hpath, hagain⟩ := h
    obtain ⟨s₁, hbefore, hafter⟩ := hpath.split
    obtain ⟨s₂, ⟨hpass, -⟩, -⟩ := hafter.uncons
    have hrun : RunActs before s₁ :=
      ⟨s₀, hs₀, hp₀, hbefore, fun hn => hagain (List.mem_append_left _ hn)⟩
    rw [hrun.countP_eq (m := State.arrived) (fun s₀ h₀ hp₀ => (h₀.at_create hp₀).2.2)
      fun _ hn ha => arrived_step hn ha]
    exact hpass.2

end Chronos.Run
