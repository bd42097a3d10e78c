import Chronos.Lib.Path
import Chronos.Run.Progress

/-!
# The steps of a batch by name

`Action` names the steps of `Step`: each has a condition and an effect, so that a
run is the list of the actions taken.
-/

namespace Chronos.Run

open Chronos.Lib

/-- What the parent, the process of a group leader or a thread does in one step. -/
inductive Action (S : Setup)
  | fork (t : S.Task)
  | forkSkip (t : S.Task)
  | forked
  | join (t : S.Task)
  | joinSkip (t : S.Task)
  | joined
  | print
  | again
  | finish
  | initGroup (l : S.Task)
  | spawn (l t : S.Task)
  | spawnSkip (l t : S.Task)
  | spawned (l : S.Task)
  | led (l : S.Task)
  | joinThread (l t : S.Task)
  | joinThreadSkip (l t : S.Task)
  | joinedThreads (l : S.Task)
  | exit (l : S.Task)
  | arrive (t : S.Task)
  | pass (t : S.Task)
  | clock (t : S.Task) (now : Nat)
  | swap (t : S.Task)
  | job (t p : S.Task) (k : Nat)
  | finishJobs (t : S.Task)
  deriving DecidableEq

variable {S : Setup}

namespace Action

/-- The condition of an action. -/
def Enabled (s : State S) : Action S → Prop
  | fork t => s.parent = .create t ∧ S.IsLeader t
  | forkSkip t => s.parent = .create t ∧ ¬S.IsLeader t
  | forked => s.parent = .create S.numTasks
  | join t => s.parent = .join t ∧ S.IsLeader t ∧ s.proc t = .exited
  | joinSkip t => s.parent = .join t ∧ ¬S.IsLeader t
  | joined => s.parent = .join S.numTasks
  | print => s.parent = .print
  | again => s.parent = .next ∧ s.run + 1 < S.runs
  | finish => s.parent = .next ∧ s.run + 1 = S.runs
  | initGroup l => s.proc l = .initGroup
  | spawn l t => s.proc l = .spawn t ∧ S.IsMember l t
  | spawnSkip l t => s.proc l = .spawn t ∧ ¬S.IsMember l t
  | spawned l => s.proc l = .spawn S.numTasks
  | led l => s.proc l = .lead ∧ s.thread l = .done
  | joinThread l t => s.proc l = .joining t ∧ S.IsMember l t ∧ s.thread t = .done
  | joinThreadSkip l t => s.proc l = .joining t ∧ ¬S.IsMember l t
  | joinedThreads l => s.proc l = .joining S.numTasks
  | exit l => s.proc l = .cleanupGroup
  | arrive t => s.thread t = .setup
  | pass t => s.thread t = .barrier ∧ s.arrived = S.numTasks
  | clock t _ => s.thread t = .passed
  | swap t => s.thread t = .timed
  | job t p k => s.thread t = .job k ∧ k < S.jobs t ∧ s.procStart (S.groupLeader t) = some p
  | finishJobs t => s.thread t = .job (S.jobs t)

/-- The effect of an action. -/
def apply (s : State S) : Action S → State S
  | fork t => { s.setProc t .initGroup with
      parent := .create (t + 1)
      procStart := Function.update s.procStart t s.globalStart
      procStdout := Function.update s.procStdout t s.stdout }
  | forkSkip t => { s with parent := .create (t + 1) }
  | forked => { s with parent := .join 0 }
  | join t => { s with parent := .join (t + 1) }
  | joinSkip t => { s with parent := .join (t + 1) }
  | joined => { s with parent := .print }
  | print => { s with parent := .next, stdout := s.stdout ++ [.result s.run] }
  | again => s.startRun (s.run + 1)
  | finish => { s with parent := .exited, file := s.file ++ s.stdout }
  | initGroup l => s.setProc l (.spawn 0)
  | spawn l t => (s.setProc l (.spawn (t + 1))).setThread t .setup
  | spawnSkip l t => s.setProc l (.spawn (t + 1))
  | spawned l => (s.setProc l .lead).setThread l .setup
  | led l => s.setProc l (.joining 0)
  | joinThread l t => s.setProc l (.joining (t + 1))
  | joinThreadSkip l t => s.setProc l (.joining (t + 1))
  | joinedThreads l => s.setProc l .cleanupGroup
  | exit l => { s.setProc l .exited with file := s.file ++ s.procStdout l }
  | arrive t => { s.setThread t .barrier with arrived := s.arrived + 1 }
  | pass t => s.setThread t .passed
  | clock t now => { s.setThread t .timed with localStart := Function.update s.localStart t now }
  | swap t => { s.setThread t (.job 0) with
      procStart := Function.update s.procStart (S.groupLeader t)
        ((s.procStart (S.groupLeader t)).or (some t)) }
  | job t p k => { s.setThread t (.job (k + 1)) with
      deadlineFrom := Function.update s.deadlineFrom t (some (s.localStart p)) }
  | finishJobs t => s.setThread t .done

/-- The process that acts: the parent, or that of a group leader. A thread acts in
the process of its group. -/
def process : Action S → Option S.Task
  | fork _ | forkSkip _ | forked | join _ | joinSkip _ | joined | print | again | finish => none
  | initGroup l | spawn l _ | spawnSkip l _ | spawned l | led l | joinThread l _
  | joinThreadSkip l _ | joinedThreads l | exit l => some l
  | arrive t | pass t | clock t _ | swap t | job t _ _ | finishJobs t => some (S.groupLeader t)

end Action

/-- A step with its action. -/
def Acts (s : State S) (a : Action S) (s' : State S) : Prop := a.Enabled s ∧ s' = a.apply s

variable {s s' : State S} {a : Action S}

theorem Acts.step (h : Acts s a s') : Step S s s' := by
  obtain ⟨h, rfl⟩ := h
  cases a with
  | fork t => exact .fork t h.1 h.2
  | forkSkip t => exact .forkSkip t h.1 h.2
  | forked => exact .forked h
  | join t => exact .join t h.1 h.2.1 h.2.2
  | joinSkip t => exact .joinSkip t h.1 h.2
  | joined => exact .joined h
  | print => exact .print h
  | again => exact .again h.1 h.2
  | finish => exact .finish h.1 h.2
  | initGroup l => exact .initGroup l h
  | spawn l t => exact .spawn l t h.1 h.2
  | spawnSkip l t => exact .spawnSkip l t h.1 h.2
  | spawned l => exact .spawned l h
  | led l => exact .led l h.1 h.2
  | joinThread l t => exact .joinThread l t h.1 h.2.1 h.2.2
  | joinThreadSkip l t => exact .joinThreadSkip l t h.1 h.2
  | joinedThreads l => exact .joinedThreads l h
  | exit l => exact .exit l h
  | arrive t => exact .arrive t h
  | pass t => exact .pass t h.1 h.2
  | clock t now => exact .clock t now h
  | swap t => exact .swap t h
  | job t p k => exact .job t p k h.1 h.2.1 h.2.2
  | finishJobs t => exact .finishJobs t h

/-- **The actions are the steps.** -/
theorem step_iff : Step S s s' ↔ ∃ a, Acts s a s' := by
  constructor
  · intro h
    cases h with
    | fork t hpc hl => exact ⟨.fork t, ⟨hpc, hl⟩, rfl⟩
    | forkSkip t hpc hl => exact ⟨.forkSkip t, ⟨hpc, hl⟩, rfl⟩
    | forked hpc => exact ⟨.forked, hpc, rfl⟩
    | join t hpc hl hx => exact ⟨.join t, ⟨hpc, hl, hx⟩, rfl⟩
    | joinSkip t hpc hl => exact ⟨.joinSkip t, ⟨hpc, hl⟩, rfl⟩
    | joined hpc => exact ⟨.joined, hpc, rfl⟩
    | print hpc => exact ⟨.print, hpc, rfl⟩
    | again hpc hr => exact ⟨.again, ⟨hpc, hr⟩, rfl⟩
    | finish hpc hr => exact ⟨.finish, ⟨hpc, hr⟩, rfl⟩
    | initGroup l hpc => exact ⟨.initGroup l, hpc, rfl⟩
    | spawn l t hpc hm => exact ⟨.spawn l t, ⟨hpc, hm⟩, rfl⟩
    | spawnSkip l t hpc hm => exact ⟨.spawnSkip l t, ⟨hpc, hm⟩, rfl⟩
    | spawned l hpc => exact ⟨.spawned l, hpc, rfl⟩
    | led l hpc hd => exact ⟨.led l, ⟨hpc, hd⟩, rfl⟩
    | joinThread l t hpc hm hd => exact ⟨.joinThread l t, ⟨hpc, hm, hd⟩, rfl⟩
    | joinThreadSkip l t hpc hm => exact ⟨.joinThreadSkip l t, ⟨hpc, hm⟩, rfl⟩
    | joinedThreads l hpc => exact ⟨.joinedThreads l, hpc, rfl⟩
    | exit l hpc => exact ⟨.exit l, hpc, rfl⟩
    | arrive t hpc => exact ⟨.arrive t, hpc, rfl⟩
    | pass t hpc hall => exact ⟨.pass t, ⟨hpc, hall⟩, rfl⟩
    | clock t now hpc => exact ⟨.clock t now, hpc, rfl⟩
    | swap t hpc => exact ⟨.swap t, hpc, rfl⟩
    | job t p k hpc hk hp => exact ⟨.job t p k, ⟨hpc, hk, hp⟩, rfl⟩
    | finishJobs t hpc => exact ⟨.finishJobs t, hpc, rfl⟩
  · rintro ⟨a, h⟩
    exact h.step

theorem Acts.inv (h : Inv s) (ha : Acts s a s') : Inv s' := h.step ha.step

/-! ## One process and one thread -/

namespace Action

/-- The group process that an action takes further. -/
def proc : Action S → Option S.Task
  | fork l | initGroup l | spawn l _ | spawnSkip l _ | spawned l | led l | joinThread l _
  | joinThreadSkip l _ | joinedThreads l | exit l => some l
  | _ => none

/-- The thread that an action takes further. -/
def thread : Action S → Option S.Task
  | spawn _ t | spawned t | arrive t | pass t | clock t _ | swap t | job t _ _ | finishJobs t =>
    some t
  | _ => none

end Action

/-- What an action within a run does to the process of the leader `l`. -/
inductive ProcMove (l : S.Task) : Action S → ProcPc → ProcPc → Prop
  | fork (hl : S.IsLeader l) : ProcMove l (.fork l) .absent .initGroup
  | initGroup : ProcMove l (.initGroup l) .initGroup (.spawn 0)
  | spawn (t : S.Task) : ProcMove l (.spawn l t) (.spawn t) (.spawn (t + 1))
  | spawnSkip (t : S.Task) : ProcMove l (.spawnSkip l t) (.spawn t) (.spawn (t + 1))
  | spawned : ProcMove l (.spawned l) (.spawn S.numTasks) .lead
  | led : ProcMove l (.led l) .lead (.joining 0)
  | joinThread (t : S.Task) (hl : l = S.groupLeader t) (hm : ¬S.IsLeader t) :
    ProcMove l (.joinThread l t) (.joining t) (.joining (t + 1))
  | joinThreadSkip (t : S.Task) (hm : ¬S.IsMember l t) :
    ProcMove l (.joinThreadSkip l t) (.joining t) (.joining (t + 1))
  | joinedThreads : ProcMove l (.joinedThreads l) (.joining S.numTasks) .cleanupGroup
  | exit : ProcMove l (.exit l) .cleanupGroup .exited
  | stay {a : Action S} (pc : ProcPc) (h : a.proc ≠ some l) : ProcMove l a pc pc

/-- What an action within a run does to the thread of the task `t`. -/
inductive ThreadMove (t : S.Task) : Action S → ThreadPc → ThreadPc → Prop
  | spawn (l : S.Task) (hl : l = S.groupLeader t) : ThreadMove t (.spawn l t) .absent .setup
  | spawned (hl : t = S.groupLeader t) : ThreadMove t (.spawned t) .absent .setup
  | arrive : ThreadMove t (.arrive t) .setup .barrier
  | pass : ThreadMove t (.pass t) .barrier .passed
  | clock (now : Nat) : ThreadMove t (.clock t now) .passed .timed
  | swap : ThreadMove t (.swap t) .timed (.job 0)
  | job (p : S.Task) (k : Nat) : ThreadMove t (.job t p k) (.job k) (.job (k + 1))
  | finishJobs : ThreadMove t (.finishJobs t) (.job (S.jobs t)) .done
  | stay {a : Action S} (pc : ThreadPc) (h : a.thread ≠ some t) : ThreadMove t a pc pc

theorem ProcMove.update {f : S.Task → ProcPc} {k : S.Task} {pc : ProcPc} (hk : a.proc = some k)
    (hmove : ProcMove k a (f k) pc) (l : S.Task) :
    ProcMove l a (f l) (Function.update f k pc l) := by
  by_cases hlk : l = k
  · subst hlk
    rwa [Function.update_self]
  · rw [Function.update_of_ne hlk]
    exact .stay _ (by simp [hk, Ne.symm hlk])

theorem ThreadMove.update {f : S.Task → ThreadPc} {u : S.Task} {pc : ThreadPc}
    (hu : a.thread = some u) (hmove : ThreadMove u a (f u) pc) (t : S.Task) :
    ThreadMove t a (f t) (Function.update f u pc t) := by
  by_cases htu : t = u
  · subst htu
    rwa [Function.update_self]
  · rw [Function.update_of_ne htu]
    exact .stay _ (by simp [hu, Ne.symm htu])

/-- **What an action does to a process.** -/
theorem Acts.procMove (h : Inv s) (hn : a ≠ .again) (ha : Acts s a s') (l : S.Task) :
    ProcMove l a (s.proc l) (s'.proc l) := by
  obtain ⟨hen, rfl⟩ := ha
  cases a with
  | again => exact absurd rfl hn
  | fork k =>
    refine .update rfl ?_ l
    rw [h.fork_absent hen.1]
    exact .fork hen.2
  | initGroup k =>
    refine .update rfl ?_ l
    rw [show s.proc k = .initGroup from hen]
    exact .initGroup
  | spawn k t =>
    refine .update rfl ?_ l
    rw [hen.1]
    exact .spawn t
  | spawnSkip k t =>
    refine .update rfl ?_ l
    rw [hen.1]
    exact .spawnSkip t
  | spawned k =>
    refine .update rfl ?_ l
    rw [show s.proc k = .spawn S.numTasks from hen]
    exact .spawned
  | led k =>
    refine .update rfl ?_ l
    rw [hen.1]
    exact .led
  | joinThread k t =>
    have hk := h.isLeader (l := k) (by simp [hen.1])
    refine .update rfl ?_ l
    rw [hen.1]
    exact .joinThread t (Setup.leader_eq_of_member hk hen.2.1).symm hen.2.1.2
  | joinThreadSkip k t =>
    refine .update rfl ?_ l
    rw [hen.1]
    exact .joinThreadSkip t hen.2
  | joinedThreads k =>
    refine .update rfl ?_ l
    rw [show s.proc k = .joining S.numTasks from hen]
    exact .joinedThreads
  | exit k =>
    refine .update rfl ?_ l
    rw [show s.proc k = .cleanupGroup from hen]
    exact .exit
  | _ => exact .stay _ (by simp [Action.proc])

/-- **What an action does to a thread.** -/
theorem Acts.threadMove (h : Inv s) (hn : a ≠ .again) (ha : Acts s a s') (t : S.Task) :
    ThreadMove t a (s.thread t) (s'.thread t) := by
  obtain ⟨hen, rfl⟩ := ha
  cases a with
  | again => exact absurd rfl hn
  | spawn l u =>
    have hl := h.isLeader (l := l) (by simp [hen.1])
    refine .update rfl ?_ t
    rw [h.spawn_absent hen.1 hen.2]
    exact .spawn l (Setup.leader_eq_of_member hl hen.2).symm
  | spawned l =>
    refine .update rfl ?_ t
    rw [h.spawned_absent hen]
    exact .spawned (h.isLeader (l := l) (by rw [hen]; simp)).symm
  | arrive u =>
    refine .update rfl ?_ t
    rw [show s.thread u = .setup from hen]
    exact .arrive
  | pass u =>
    refine .update rfl ?_ t
    rw [hen.1]
    exact .pass
  | clock u now =>
    refine .update rfl ?_ t
    rw [show s.thread u = .passed from hen]
    exact .clock now
  | swap u =>
    refine .update rfl ?_ t
    rw [show s.thread u = .timed from hen]
    exact .swap
  | job u p k =>
    refine .update rfl ?_ t
    rw [hen.1]
    exact .job p k
  | finishJobs u =>
    refine .update rfl ?_ t
    rw [show s.thread u = .job (S.jobs u) from hen]
    exact .finishJobs
  | _ => exact .stay _ (by simp [Action.thread])

end Chronos.Run
