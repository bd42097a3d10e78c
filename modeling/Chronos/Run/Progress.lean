import Mathlib.Data.Fintype.Card
import Chronos.Lib.Update
import Chronos.Run.Defs

/-!
# A run comes to its end

The invariant of a batch, and that it never gets stuck: as long as the parent
has not exited, some process or thread can take a step, and each step lowers a
measure. So from every reachable state the run can be completed.
-/

namespace Chronos.Run

open Chronos.Lib

variable {S : Setup} {s s' : State S}

/-! ## Program counters -/

/-- The parent has been past `l` in its first loop. -/
def ParentPc.PastCreate : ParentPc → Nat → Prop
  | .create i, l => l < i
  | _, _ => True

/-- The parent has been past `l` in its second loop. -/
def ParentPc.PastJoin : ParentPc → Nat → Prop
  | .create _, _ => False
  | .join i, l => l < i
  | _, _ => True

/-- The loop indices stay in range. -/
def ParentPc.InRange (n : Nat) : ParentPc → Prop
  | .create i => i ≤ n
  | .join i => i ≤ n
  | _ => True

def ProcPc.InRange (n : Nat) : ProcPc → Prop
  | .spawn i => i ≤ n
  | .joining i => i ≤ n
  | _ => True

/-- The process has started the thread of the task `t`, its leader or not. -/
def ProcPc.Started (leader : Prop) (t : Nat) : ProcPc → Prop
  | .absent => False
  | .initGroup => False
  | .spawn i => ¬leader ∧ t < i
  | _ => True

/-- The process has seen the thread of the task `t` end. -/
def ProcPc.Finished (leader : Prop) (t : Nat) : ProcPc → Prop
  | .joining i => leader ∨ t < i
  | .cleanupGroup => True
  | .exited => True
  | _ => False

/-- The thread has called `pthread_barrier_wait`. -/
def ThreadPc.arrivals : ThreadPc → Nat
  | .absent => 0
  | .setup => 0
  | _ => 1

/-- The thread has been through the compare-and-swap. -/
def ThreadPc.Swapped : ThreadPc → Prop
  | .job _ => True
  | .done => True
  | _ => False

/-- **The invariant of a batch.** -/
structure Inv (s : State S) : Prop where
  runRange : s.run < S.runs
  jobRange : ∀ t k, s.thread t = .job k → k ≤ S.jobs t
  parentRange : s.parent.InRange S.numTasks
  procRange : ∀ l, (s.proc l).InRange S.numTasks
  forked : ∀ l, s.proc l ≠ .absent ↔ S.IsLeader l ∧ s.parent.PastCreate l
  joined : ∀ l, S.IsLeader l → s.parent.PastJoin l → s.proc l = .exited
  started : ∀ t, s.thread t ≠ .absent ↔ (s.proc (S.groupLeader t)).Started (S.IsLeader t) t
  finished : ∀ t, (s.proc (S.groupLeader t)).Finished (S.IsLeader t) t → s.thread t = .done
  arrived : s.arrived = ∑ t, (s.thread t).arrivals
  swapped : ∀ t, (s.thread t).Swapped → s.procStart (S.groupLeader t) ≠ none

theorem Inv.runRange_step (h : Inv s) (hs : Step S s s') : s'.run < S.runs := by
  have := h.runRange
  cases hs <;> assumption

theorem Inv.jobRange_step (h : Inv s) (hs : Step S s s') :
    ∀ t k, s'.thread t = .job k → k ≤ S.jobs t := by
  intro t k
  have ht := h.jobRange t
  cases hs <;> simp only [State.setProc, State.setThread, State.startRun, Function.update_apply] <;>
    grind

theorem Inv.parentRange_step (h : Inv s) (hs : Step S s s') : s'.parent.InRange S.numTasks := by
  have := h.parentRange
  cases hs <;> simp_all only [State.setProc, State.setThread, State.startRun, ParentPc.InRange] <;>
    omega

theorem Inv.procRange_step (h : Inv s) (hs : Step S s s') :
    ∀ l, (s'.proc l).InRange S.numTasks := by
  intro l
  have hl := h.procRange l
  cases hs <;> simp only [State.setProc, State.setThread, State.startRun, Function.update_apply] <;>
    grind [ProcPc.InRange]

theorem Inv.forked_step (h : Inv s) (hs : Step S s s') :
    ∀ l, s'.proc l ≠ .absent ↔ S.IsLeader l ∧ s'.parent.PastCreate l := by
  intro l
  have hl := h.forked l
  cases hs <;> simp only [State.setProc, State.setThread, State.startRun, Function.update_apply] <;>
    grind [ParentPc.PastCreate]

theorem Inv.joined_step (h : Inv s) (hs : Step S s s') :
    ∀ l, S.IsLeader l → s'.parent.PastJoin l → s'.proc l = .exited := by
  intro l
  have hl := h.joined l
  have hf := h.forked l
  cases hs <;> simp only [State.setProc, State.setThread, State.startRun, Function.update_apply] <;>
    grind [ParentPc.PastCreate, ParentPc.PastJoin]

/-- The leader of a task's group: the task itself, or the one it is a member of. -/
theorem Setup.groupLeader_spec (S : Setup) (t : S.Task) : S.IsLeader (S.groupLeader t) ∧
    (S.IsLeader t → S.groupLeader t = t) ∧
    (∀ l, S.IsLeader l → S.IsMember l t → S.groupLeader t = l) ∧
    (¬S.IsLeader t → S.IsMember (S.groupLeader t) t) :=
  ⟨S.isLeader_groupLeader t, id, fun _ hl hm => leader_eq_of_member hl hm, member_groupLeader⟩

theorem Inv.started_step (h : Inv s) (hs : Step S s s') :
    ∀ t, s'.thread t ≠ .absent ↔ (s'.proc (S.groupLeader t)).Started (S.IsLeader t) t := by
  intro t
  have ht := h.started t
  have hf := h.forked
  obtain ⟨hl, hlead, hm, hmem⟩ := S.groupLeader_spec t
  have hval : ∀ u : S.Task, u.val = t.val → u = t := fun u => Fin.ext
  cases hs <;> simp only [State.setProc, State.setThread, State.startRun, Function.update_apply] <;>
    grind [ProcPc.Started, ParentPc.PastCreate, Setup.IsMember]

theorem Inv.finished_step (h : Inv s) (hs : Step S s s') :
    ∀ t, (s'.proc (S.groupLeader t)).Finished (S.IsLeader t) t → s'.thread t = .done := by
  intro t
  have ht := h.finished t
  have hst := h.started t
  have hf := h.forked
  obtain ⟨hl, hlead, hm, hmem⟩ := S.groupLeader_spec t
  have hval : ∀ u : S.Task, u.val = t.val → u = t := fun u => Fin.ext
  have hlt := t.isLt
  cases hs <;> simp only [State.setProc, State.setThread, State.startRun, Function.update_apply] <;>
    grind [ProcPc.Finished, ProcPc.Started, Setup.IsMember]

theorem arrivals_update {f : S.Task → ThreadPc} {t : S.Task} {pc : ThreadPc}
    (h : pc.arrivals = (f t).arrivals) :
    ∑ u, (Function.update f t pc u).arrivals = ∑ u, (f u).arrivals :=
  sum_update_eq (fun _ => ThreadPc.arrivals) f h

theorem Inv.isLeader (h : Inv s) {l : S.Task} (hl : s.proc l ≠ .absent) : S.IsLeader l :=
  ((h.forked l).mp hl).1

theorem Inv.thread_absent (h : Inv s) {t : S.Task}
    (ht : ¬(s.proc (S.groupLeader t)).Started (S.IsLeader t) t) : s.thread t = .absent :=
  not_ne_iff.mp (mt (h.started t).mp ht)

/-- A process about to be forked does not exist yet. -/
theorem Inv.fork_absent (h : Inv s) {l : S.Task} (hpc : s.parent = .create l) :
    s.proc l = .absent := by
  by_contra hne
  have hpast := ((h.forked l).mp hne).2
  rw [hpc] at hpast
  exact Nat.lt_irrefl _ hpast

/-- A thread about to be created does not exist yet. -/
theorem Inv.spawn_absent (h : Inv s) {l t : S.Task} (hpc : s.proc l = .spawn t)
    (hm : S.IsMember l t) : s.thread t = .absent := by
  have hl := h.isLeader (l := l) (by rw [hpc]; nofun)
  apply h.thread_absent
  rw [Setup.leader_eq_of_member hl hm, hpc]
  exact fun hst => Nat.lt_irrefl _ hst.2

theorem Inv.spawned_absent (h : Inv s) {l : S.Task} (hpc : s.proc l = .spawn S.numTasks) :
    s.thread l = .absent := by
  have hl := h.isLeader (l := l) (by rw [hpc]; nofun)
  apply h.thread_absent
  rw [hl, hpc]
  exact fun hst => hst.1 hl

theorem Inv.arrived_step (h : Inv s) (hs : Step S s s') :
    s'.arrived = ∑ t, (s'.thread t).arrivals := by
  have harr := h.arrived
  cases hs with
  | again => simp [State.startRun, ThreadPc.arrivals]
  | spawn l t hpc hm =>
    have habs := h.spawn_absent hpc hm
    exact harr.trans (arrivals_update (by rw [habs]; rfl)).symm
  | spawned l hpc =>
    have habs := h.spawned_absent hpc
    exact harr.trans (arrivals_update (by rw [habs]; rfl)).symm
  | arrive t hpc =>
    have hsum := sum_update (fun _ => ThreadPc.arrivals) s.thread t .barrier
    rw [hpc] at hsum
    exact (congrArg (· + 1) harr).trans hsum.symm
  | pass t hpc => exact harr.trans (arrivals_update (by rw [hpc]; rfl)).symm
  | clock t now hpc => exact harr.trans (arrivals_update (by rw [hpc]; rfl)).symm
  | swap t hpc => exact harr.trans (arrivals_update (by rw [hpc]; rfl)).symm
  | job t p k hpc => exact harr.trans (arrivals_update (by rw [hpc]; rfl)).symm
  | finishJobs t hpc => exact harr.trans (arrivals_update (by rw [hpc]; rfl)).symm
  | _ => exact harr

theorem Inv.swapped_step (h : Inv s) (hs : Step S s s') :
    ∀ t, (s'.thread t).Swapped → s'.procStart (S.groupLeader t) ≠ none := by
  intro t
  have ht := h.swapped t
  have hst := h.started t
  have hf := h.forked
  cases hs <;> simp only [State.setProc, State.setThread, State.startRun, Function.update_apply] <;>
    grind [ThreadPc.Swapped, ParentPc.PastCreate, ProcPc.Started]

theorem Inv.step (h : Inv s) (hs : Step S s s') : Inv s' :=
  ⟨h.runRange_step hs, h.jobRange_step hs, h.parentRange_step hs, h.procRange_step hs,
    h.forked_step hs, h.joined_step hs, h.started_step hs, h.finished_step hs,
    h.arrived_step hs, h.swapped_step hs⟩

theorem Inv.start : Inv (State.start S) where
  runRange := S.runs_pos
  jobRange _ _ := nofun
  parentRange := Nat.zero_le _
  procRange _ := trivial
  forked l := ⟨fun h => absurd rfl h, fun h => absurd h.2 (Nat.not_lt_zero _)⟩
  joined _ _ h := h.elim
  started t := ⟨fun h => absurd rfl h, fun h => h.elim⟩
  finished _ h := h.elim
  arrived := by simp [State.start, ThreadPc.arrivals]
  swapped _ h := h.elim

theorem Inv.of_path (h : Inv s) (hpath : Relation.ReflTransGen (Step S) s s') : Inv s' := by
  induction hpath with
  | refl => exact h
  | tail _ hs ih => exact ih.step hs

theorem Inv.of_reachable (h : Reachable S s) : Inv s := Inv.start.of_path h

/-! ## Progress -/

/-- A group process that has not started all its threads can go on. -/
theorem Inv.spawn_step (h : Inv s) {l : S.Task}
    (hpc : s.proc l = .initGroup ∨ ∃ i, s.proc l = .spawn i) : ∃ s', Step S s s' := by
  rcases hpc with hpc | ⟨i, hpc⟩
  · exact ⟨_, .initGroup l hpc⟩
  · have hrange := h.procRange l
    rw [hpc] at hrange
    rcases Nat.lt_or_eq_of_le hrange with hlt | rfl
    · by_cases hm : S.IsMember l ⟨i, hlt⟩
      · exact ⟨_, .spawn l ⟨i, hlt⟩ hpc hm⟩
      · exact ⟨_, .spawnSkip l ⟨i, hlt⟩ hpc hm⟩
    · exact ⟨_, .spawned l hpc⟩

/-- Once all threads are done, a group process that has not exited can go on. -/
theorem Inv.proc_step (h : Inv s) {l : S.Task} (ha : s.proc l ≠ .absent) (hx : s.proc l ≠ .exited)
    (hdone : ∀ t, s.thread t ≠ .absent → s.thread t = .done) : ∃ s', Step S s s' := by
  have hl := h.isLeader ha
  have hrange := h.procRange l
  cases hpc : s.proc l with
  | absent => exact absurd hpc ha
  | exited => exact absurd hpc hx
  | initGroup => exact h.spawn_step (Or.inl hpc)
  | spawn i => exact h.spawn_step (Or.inr ⟨i, hpc⟩)
  | cleanupGroup => exact ⟨_, .exit l hpc⟩
  | lead =>
    refine ⟨_, .led l hpc (hdone l ((h.started l).mpr ?_))⟩
    rw [hl, hpc]
    trivial
  | joining i =>
    rw [hpc] at hrange
    rcases Nat.lt_or_eq_of_le hrange with hlt | rfl
    · by_cases hm : S.IsMember l ⟨i, hlt⟩
      · refine ⟨_, .joinThread l ⟨i, hlt⟩ hpc hm (hdone _ ((h.started _).mpr ?_))⟩
        rw [Setup.leader_eq_of_member hl hm, hpc]
        trivial
      · exact ⟨_, .joinThreadSkip l ⟨i, hlt⟩ hpc hm⟩
    · exact ⟨_, .joinedThreads l hpc⟩

/-- A thread that is neither at the barrier nor done can go on, and so can one
at the barrier when all have arrived. -/
theorem Inv.thread_step (h : Inv s) {t : S.Task} (ha : s.thread t ≠ .absent)
    (hd : s.thread t ≠ .done) (hb : s.thread t = .barrier → s.arrived = S.numTasks) :
    ∃ s', Step S s s' := by
  cases hpc : s.thread t with
  | absent => exact absurd hpc ha
  | done => exact absurd hpc hd
  | setup => exact ⟨_, .arrive t hpc⟩
  | barrier => exact ⟨_, .pass t hpc (hb hpc)⟩
  | passed => exact ⟨_, .clock t 0 hpc⟩
  | timed => exact ⟨_, .swap t hpc⟩
  | job k =>
    rcases Nat.lt_or_eq_of_le (h.jobRange t k hpc) with hlt | rfl
    · obtain ⟨p, hp⟩ := Option.ne_none_iff_exists'.mp (h.swapped t (by rw [hpc]; trivial))
      exact ⟨_, .job t p k hpc hlt hp⟩
    · exact ⟨_, .finishJobs t hpc⟩

/-- As long as not all threads have arrived, one that has not can go on or is
about to be started. -/
theorem Inv.arrive_step (h : Inv s) (hp : ∀ l : S.Task, s.parent.PastCreate l)
    (harr : s.arrived ≠ S.numTasks) : ∃ s', Step S s s' := by
  obtain ⟨t, ht⟩ : ∃ t, (s.thread t).arrivals = 0 := by
    by_contra hne
    apply harr
    have hone : ∀ t, (s.thread t).arrivals = 1 := by
      intro t
      have := not_exists.mp hne t
      cases hpc : s.thread t <;> simp_all [ThreadPc.arrivals]
    rw [h.arrived, Finset.sum_congr rfl fun t _ => hone t, ← Finset.card_eq_sum_ones]
    exact Finset.card_fin _
  have hproc : s.proc (S.groupLeader t) ≠ .absent :=
    (h.forked _).mpr ⟨S.isLeader_groupLeader t, hp _⟩
  cases hpc : s.thread t with
  | setup => exact h.thread_step (t := t) (by simp [hpc]) (by simp [hpc]) (by simp [hpc])
  | absent =>
    have hst : ¬(s.proc (S.groupLeader t)).Started (S.IsLeader t) t :=
      fun hst => (h.started t).mpr hst hpc
    apply h.spawn_step (l := S.groupLeader t)
    cases hl : s.proc (S.groupLeader t) with
    | absent => exact absurd hl hproc
    | initGroup => exact Or.inl rfl
    | spawn i => exact Or.inr ⟨i, rfl⟩
    | _ =>
      rw [hl] at hst
      exact absurd trivial hst
  | _ =>
    rw [hpc] at ht
    cases ht

/-- **No deadlock.** Until the parent exits, some step is possible. -/
theorem Inv.progress (h : Inv s) (hx : s.parent ≠ .exited) : ∃ s', Step S s s' := by
  have hrange := h.parentRange
  cases hpc : s.parent with
  | exited => exact absurd hpc hx
  | print => exact ⟨_, .print hpc⟩
  | next =>
    rcases Nat.lt_or_eq_of_le (Nat.succ_le_of_lt h.runRange) with hlt | heq
    · exact ⟨_, .again hpc hlt⟩
    · exact ⟨_, .finish hpc heq⟩
  | create i =>
    rw [hpc] at hrange
    rcases Nat.lt_or_eq_of_le hrange with hlt | rfl
    · by_cases hl : S.IsLeader ⟨i, hlt⟩
      · exact ⟨_, .fork ⟨i, hlt⟩ hpc hl⟩
      · exact ⟨_, .forkSkip ⟨i, hlt⟩ hpc hl⟩
    · exact ⟨_, .forked hpc⟩
  | join i =>
    have hp : ∀ l : S.Task, s.parent.PastCreate l := fun l => by rw [hpc]; trivial
    rw [hpc] at hrange
    rcases Nat.lt_or_eq_of_le hrange with hlt | rfl
    · by_cases hl : S.IsLeader ⟨i, hlt⟩
      · by_cases hexit : s.proc ⟨i, hlt⟩ = .exited
        · exact ⟨_, .join ⟨i, hlt⟩ hpc hl hexit⟩
        · by_cases harr : s.arrived = S.numTasks
          · by_cases hdone : ∀ t, s.thread t ≠ .absent → s.thread t = .done
            · exact h.proc_step ((h.forked _).mpr ⟨hl, hp _⟩) hexit hdone
            · simp only [not_forall] at hdone
              obtain ⟨t, ha, hd⟩ := hdone
              exact h.thread_step ha hd fun _ => harr
          · exact h.arrive_step hp harr
      · exact ⟨_, .joinSkip ⟨i, hlt⟩ hpc hl⟩
    · exact ⟨_, .joined hpc⟩

/-! ## Termination -/

/-- How far the parent is from the end of a run. -/
def ParentPc.rank (n : Nat) : ParentPc → Nat
  | .create i => (n - i) + n + 4
  | .join i => (n - i) + 3
  | .print => 2
  | .next => 1
  | .exited => 0

def ProcPc.rank (n : Nat) : ProcPc → Nat
  | .absent => 2 * n + 6
  | .initGroup => 2 * n + 5
  | .spawn i => (n - i) + n + 4
  | .lead => n + 3
  | .joining i => (n - i) + 2
  | .cleanupGroup => 1
  | .exited => 0

def ThreadPc.rank (jobs : Nat) : ThreadPc → Nat
  | .absent => jobs + 6
  | .setup => jobs + 5
  | .barrier => jobs + 4
  | .passed => jobs + 3
  | .timed => jobs + 2
  | .job k => (jobs - k) + 1
  | .done => 0

theorem ParentPc.rank_create_lt {n i : Nat} (h : i < n) :
    (ParentPc.create (i + 1)).rank n < (ParentPc.create i).rank n := by
  simp only [rank]
  omega

theorem ParentPc.rank_join_lt {n i : Nat} (h : i < n) :
    (ParentPc.join (i + 1)).rank n < (ParentPc.join i).rank n := by
  simp only [rank]
  omega

theorem ProcPc.rank_spawn_lt {n i : Nat} (h : i < n) :
    (ProcPc.spawn (i + 1)).rank n < (ProcPc.spawn i).rank n := by
  simp only [rank]
  omega

theorem ProcPc.rank_joining_lt {n i : Nat} (h : i < n) :
    (ProcPc.joining (i + 1)).rank n < (ProcPc.joining i).rank n := by
  simp only [rank]
  omega

/-- What a run still has to do. -/
def State.rank (s : State S) : Nat :=
  s.parent.rank S.numTasks + ∑ l, (s.proc l).rank S.numTasks +
    ∑ t, (s.thread t).rank (S.jobs t)

theorem proc_rank_update (f : S.Task → ProcPc) (l : S.Task) (pc : ProcPc)
    (h : pc.rank S.numTasks < (f l).rank S.numTasks) :
    ∑ u, (Function.update f l pc u).rank S.numTasks < ∑ u, (f u).rank S.numTasks :=
  sum_update_lt (fun _ => ProcPc.rank S.numTasks) f h

theorem thread_rank_update (f : S.Task → ThreadPc) (t : S.Task) (pc : ThreadPc)
    (h : pc.rank (S.jobs t) < (f t).rank (S.jobs t)) :
    ∑ u, (Function.update f t pc u).rank (S.jobs u) < ∑ u, (f u).rank (S.jobs u) :=
  sum_update_lt (fun u => ThreadPc.rank (S.jobs u)) f h

theorem State.rank_parent {pc : ParentPc} (hp : s'.parent = pc) (hq : s'.proc = s.proc)
    (ht : s'.thread = s.thread) (hlt : pc.rank S.numTasks < s.parent.rank S.numTasks) :
    s'.rank < s.rank := by
  unfold State.rank
  rw [hp, hq, ht]
  omega

theorem State.rank_proc {l : S.Task} {pc : ProcPc} (hp : s'.parent = s.parent)
    (hq : s'.proc = Function.update s.proc l pc) (ht : s'.thread = s.thread)
    (hlt : pc.rank S.numTasks < (s.proc l).rank S.numTasks) : s'.rank < s.rank := by
  have := proc_rank_update _ _ _ hlt
  unfold State.rank
  rw [hp, hq, ht]
  omega

theorem State.rank_thread {t : S.Task} {pc : ThreadPc} (hp : s'.parent = s.parent)
    (hq : s'.proc = s.proc) (ht : s'.thread = Function.update s.thread t pc)
    (hlt : pc.rank (S.jobs t) < (s.thread t).rank (S.jobs t)) : s'.rank < s.rank := by
  have := thread_rank_update _ _ _ hlt
  unfold State.rank
  rw [hp, hq, ht]
  omega

/-- Each step of a run lowers its rank; only the step to the next run does not. -/
theorem Inv.rank_step (h : Inv s) (hs : Step S s s') (hpc : s.parent ≠ .next) :
    s'.rank < s.rank := by
  cases hs with
  | again hn => exact absurd hn hpc
  | finish hn => exact absurd hn hpc
  | fork t hpc hl =>
    have habs := h.fork_absent hpc
    have hproc := proc_rank_update s.proc t .initGroup
      (by rw [habs]; exact Nat.lt_succ_self _)
    unfold State.rank
    rw [hpc]
    simp only [State.setProc, ParentPc.rank]
    omega
  | forkSkip t hpc =>
    exact State.rank_parent rfl rfl rfl (hpc ▸ ParentPc.rank_create_lt t.isLt)
  | forked hpc => exact State.rank_parent rfl rfl rfl (by rw [hpc]; simp [ParentPc.rank])
  | join t hpc => exact State.rank_parent rfl rfl rfl (hpc ▸ ParentPc.rank_join_lt t.isLt)
  | joinSkip t hpc => exact State.rank_parent rfl rfl rfl (hpc ▸ ParentPc.rank_join_lt t.isLt)
  | joined hpc => exact State.rank_parent rfl rfl rfl (by rw [hpc]; simp [ParentPc.rank])
  | print hpc => exact State.rank_parent rfl rfl rfl (by rw [hpc]; simp [ParentPc.rank])
  | initGroup l hpc => exact State.rank_proc rfl rfl rfl (by rw [hpc]; simp only [ProcPc.rank]; omega)
  | spawn l t hpc hm =>
    have habs := h.spawn_absent hpc hm
    have hproc := proc_rank_update s.proc _ _ (hpc ▸ ProcPc.rank_spawn_lt t.isLt)
    have hthread := thread_rank_update s.thread t .setup
      (by rw [habs]; exact Nat.lt_succ_self _)
    unfold State.rank
    simp only [State.setProc, State.setThread]
    omega
  | spawned l hpc =>
    have habs := h.spawned_absent hpc
    have hproc := proc_rank_update s.proc l .lead
      (by rw [hpc]; simp only [ProcPc.rank]; omega)
    have hthread := thread_rank_update s.thread l .setup
      (by rw [habs]; exact Nat.lt_succ_self _)
    unfold State.rank
    simp only [State.setProc, State.setThread]
    omega
  | spawnSkip l t hpc => exact State.rank_proc rfl rfl rfl (hpc ▸ ProcPc.rank_spawn_lt t.isLt)
  | led l hpc => exact State.rank_proc rfl rfl rfl (by rw [hpc]; simp only [ProcPc.rank]; omega)
  | joinThread l t hpc => exact State.rank_proc rfl rfl rfl (hpc ▸ ProcPc.rank_joining_lt t.isLt)
  | joinThreadSkip l t hpc => exact State.rank_proc rfl rfl rfl (hpc ▸ ProcPc.rank_joining_lt t.isLt)
  | joinedThreads l hpc =>
    exact State.rank_proc rfl rfl rfl (by rw [hpc]; simp only [ProcPc.rank]; omega)
  | exit l hpc => exact State.rank_proc rfl rfl rfl (by rw [hpc]; exact Nat.zero_lt_one)
  | arrive t hpc => exact State.rank_thread rfl rfl rfl (by rw [hpc]; exact Nat.lt_succ_self _)
  | pass t hpc => exact State.rank_thread rfl rfl rfl (by rw [hpc]; exact Nat.lt_succ_self _)
  | clock t now hpc => exact State.rank_thread rfl rfl rfl (by rw [hpc]; exact Nat.lt_succ_self _)
  | swap t hpc => exact State.rank_thread rfl rfl rfl (by rw [hpc]; exact Nat.lt_succ_self _)
  | job t p k hpc hk =>
    exact State.rank_thread rfl rfl rfl (by rw [hpc]; simp only [ThreadPc.rank]; omega)
  | finishJobs t hpc => exact State.rank_thread rfl rfl rfl (by rw [hpc]; exact Nat.zero_lt_succ _)

theorem Step.run_eq (hs : Step S s s') (hpc : s.parent ≠ .next) : s'.run = s.run := by
  cases hs <;> first | rfl | exact absurd ‹_› hpc

/-- **A run comes to its end.** From every state of a run, the parent can reach
`print_results`. -/
theorem Inv.exists_print (h : Inv s) (hx : s.parent ≠ .exited) (hn : s.parent ≠ .next) :
    ∃ s', Relation.ReflTransGen (Step S) s s' ∧ s'.parent = .print ∧ s'.run = s.run := by
  induction hr : s.rank using Nat.strong_induction_on generalizing s with
  | _ r ih =>
    by_cases hpc : s.parent = .print
    · exact ⟨s, .refl, hpc, rfl⟩
    · obtain ⟨s₁, hs₁⟩ := h.progress hx
      have hlt := h.rank_step hs₁ hn
      have hx₁ : s₁.parent ≠ .exited ∧ s₁.parent ≠ .next := by
        cases hs₁ <;> first
          | exact absurd ‹_› hpc
          | exact absurd ‹_› hn
          | simp_all [State.setProc, State.setThread]
      obtain ⟨s', hpath, hp, hrun⟩ := ih s₁.rank (hr ▸ hlt) (h.step hs₁) hx₁.1 hx₁.2 rfl
      exact ⟨s', .head hs₁ hpath, hp, hrun.trans (hs₁.run_eq hn)⟩

theorem Inv.exists_next (h : Inv s) (hx : s.parent ≠ .exited) :
    ∃ s', Relation.ReflTransGen (Step S) s s' ∧ s'.parent = .next ∧ s'.run = s.run := by
  by_cases hn : s.parent = .next
  · exact ⟨s, .refl, hn, rfl⟩
  · obtain ⟨s₁, hpath, hp, hrun⟩ := h.exists_print hx hn
    exact ⟨_, hpath.tail (.print hp), rfl, hrun⟩

/-- **Completion.** From every state of a batch, the batch can be completed. -/
theorem Inv.exists_exited (h : Inv s) :
    ∃ s', Relation.ReflTransGen (Step S) s s' ∧ s'.parent = .exited := by
  induction hr : S.runs - s.run using Nat.strong_induction_on generalizing s with
  | _ r ih =>
    by_cases hx : s.parent = .exited
    · exact ⟨s, .refl, hx⟩
    · obtain ⟨s₁, hpath, hn, hrun⟩ := h.exists_next hx
      have h₁ := h.of_path hpath
      rcases Nat.lt_or_eq_of_le (Nat.succ_le_of_lt h₁.runRange) with hlt | heq
      · have hs := Step.again hn hlt
        obtain ⟨s', hpath', hx'⟩ := ih (S.runs - (s₁.run + 1)) (by omega) (h₁.step hs) rfl
        exact ⟨s', hpath.trans (.head hs hpath'), hx'⟩
      · exact ⟨_, hpath.tail (Step.finish hn heq), rfl⟩

end Chronos.Run
