import Chronos.Run.Action

/-!
# The data of a thread group

`workload_init_group` allocates the data of a group in the process of its leader
and leaves the pointer in the leader's task. Every task of the group reads it from
there, whenever it calls its workload. The calls are steps of their own here, so
that those of different threads interleave, and the log of a run holds them in
their order.
-/

namespace Chronos.Run

open Chronos.Lib

/-- A block of group data: the run, and the process that allocated it. -/
structure GroupData (S : Setup) where
  run : Nat
  owner : S.Task
  deriving DecidableEq

/-- What a task calls its workload for. -/
inductive Use
  | initTask
  | doWork
  | cleanupTask
  deriving DecidableEq, Repr

/-- A call of the workload. A task's call names the process it is made in, and has
the pointer that was read and whether its block was still allocated. -/
inductive Call (S : Setup)
  | initGroup (l : S.Task)
  | use (what : Use) (t : S.Task) (process : S.Task) (data : Option (GroupData S))
    (allocated : Bool)
  | cleanupGroup (l : S.Task) (data : Option (GroupData S))
  deriving DecidableEq

/-- A run with its group data: `workload_tg_data` of each task, the blocks not yet
released, the process each thread was started in, and which tasks and groups have
been set up or cleaned up. -/
structure GState (S : Setup) where
  state : State S
  tgData : S.Task → Option (GroupData S)
  allocated : GroupData S → Bool
  home : S.Task → S.Task
  inited : S.Task → Bool
  cleaned : S.Task → Bool
  groupCleaned : S.Task → Bool
  /-- The calls of this run, oldest first. -/
  calls : List (Call S)

namespace GState

variable {S : Setup}

def start (S : Setup) : GState S where
  state := .start S
  tgData _ := none
  allocated _ := false
  home t := t
  inited _ := false
  cleaned _ := false
  groupCleaned _ := false
  calls := []

/-- The pointer that `init_group` leaves; a workload without `init_group` has no
group data. -/
def block (hasData : Bool) (run : Nat) (l : S.Task) : Option (GroupData S) :=
  if hasData then some ⟨run, l⟩ else none

/-- What must be done before an action. -/
def Guard (g : GState S) : Action S → Prop
  | .arrive t => g.inited t = true
  | .finishJobs t => g.cleaned t = true
  | .exit l => g.groupCleaned l = true
  | _ => True

/-- What an action does besides. -/
def after (hasData : Bool) (g : GState S) (a : Action S) : GState S :=
  let g' := { g with state := a.apply g.state }
  match a with
  | .initGroup l => { g' with
      tgData := Function.update g.tgData l (block hasData g.state.run l)
      allocated := Function.update g.allocated ⟨g.state.run, l⟩ hasData
      calls := g.calls ++ [.initGroup l] }
  | .spawn l t => { g' with home := Function.update g.home t l }
  | .spawned l => { g' with home := Function.update g.home l l }
  | .again => { g' with
      inited := fun _ => false
      cleaned := fun _ => false
      groupCleaned := fun _ => false
      calls := [] }
  | _ => g'

/-- A call of the task `t`, with `t->group_leader->workload_tg_data`. -/
def use (g : GState S) (what : Use) (t : S.Task) : Call S :=
  .use what t (g.home t) (g.tgData (S.groupLeader t))
    ((g.tgData (S.groupLeader t)).any g.allocated)

end GState

/-- A step of a run with group data. `hasData` tells whether the workload has an
`init_group`. -/
inductive GStep (S : Setup) (hasData : Bool) : GState S → GState S → Prop
  | act {g} (a : Action S) (hen : a.Enabled g.state) (hguard : g.Guard a) :
    GStep S hasData g (g.after hasData a)
  | initTask {g} (t : S.Task) (hpc : g.state.thread t = .setup) (hi : g.inited t = false) :
    GStep S hasData g { g with
      inited := Function.update g.inited t true
      calls := g.calls ++ [g.use .initTask t] }
  | doWork {g} (t : S.Task) (k : Nat) (hpc : g.state.thread t = .job k) (hk : k < S.jobs t) :
    GStep S hasData g { g with calls := g.calls ++ [g.use .doWork t] }
  | cleanupTask {g} (t : S.Task) (hpc : g.state.thread t = .job (S.jobs t))
    (hc : g.cleaned t = false) :
    GStep S hasData g { g with
      cleaned := Function.update g.cleaned t true
      calls := g.calls ++ [g.use .cleanupTask t] }
  | cleanupGroup {g} (l : S.Task) (hpc : g.state.proc l = .cleanupGroup)
    (hc : g.groupCleaned l = false) :
    GStep S hasData g { g with
      tgData := Function.update g.tgData l none
      allocated := fun d => g.allocated d && g.tgData l ≠ some d
      groupCleaned := Function.update g.groupCleaned l true
      calls := g.calls ++ [.cleanupGroup l (g.tgData l)] }

def GReachable (S : Setup) (hasData : Bool) : GState S → Prop :=
  Relation.ReflTransGen (GStep S hasData) (GState.start S)

variable {S : Setup} {hasData : Bool} {g g' : GState S}

theorem GState.state_after (g : GState S) (a : Action S) :
    (g.after hasData a).state = a.apply g.state := by
  cases a <;> rfl

/-- **The calls are made within the steps of the batch.** -/
theorem GStep.state (h : GStep S hasData g g') : g'.state = g.state ∨ Step S g.state g'.state := by
  cases h with
  | act a hen _ => exact .inr (Acts.step ⟨hen, g.state_after a⟩)
  | initTask => exact .inl rfl
  | doWork => exact .inl rfl
  | cleanupTask => exact .inl rfl
  | cleanupGroup => exact .inl rfl

/-- What must be done before an action can be done. -/
theorem exists_guard (hg : GReachable S hasData g) {a : Action S} (hen : a.Enabled g.state) :
    ∃ g₁, GReachable S hasData g₁ ∧ g₁.state = g.state ∧ g₁.Guard a := by
  cases a with
  | arrive t =>
    cases hi : g.inited t with
    | true => exact ⟨g, hg, rfl, hi⟩
    | false => exact ⟨_, hg.tail (.initTask t hen hi), rfl, Function.update_self ..⟩
  | finishJobs t =>
    cases hc : g.cleaned t with
    | true => exact ⟨g, hg, rfl, hc⟩
    | false => exact ⟨_, hg.tail (.cleanupTask t hen hc), rfl, Function.update_self ..⟩
  | exit l =>
    cases hc : g.groupCleaned l with
    | true => exact ⟨g, hg, rfl, hc⟩
    | false => exact ⟨_, hg.tail (.cleanupGroup l hen hc), rfl, Function.update_self ..⟩
  | _ => exact ⟨g, hg, rfl, trivial⟩

/-- **Every state of a batch** is one of a batch with group data. -/
theorem exists_gState {s : State S} (h : Reachable S s) :
    ∃ g, GReachable S hasData g ∧ g.state = s := by
  induction h with
  | refl => exact ⟨_, .refl, rfl⟩
  | tail _ hs ih =>
    obtain ⟨g, hg, rfl⟩ := ih
    obtain ⟨a, hen, rfl⟩ := step_iff.mp hs
    obtain ⟨g₁, hg₁, hstate, hguard⟩ := exists_guard hg hen
    rw [← hstate] at hen ⊢
    exact ⟨_, hg₁.tail (.act a hen hguard), g₁.state_after a⟩

/-! ## The order of the calls -/

/-- A call is in order after the calls `before`: a group is set up once, a task calls
its workload in the process of its own group, after the group was set up and before
it is cleaned up, with the block of this group, still allocated; and a group is
cleaned up once, with the block it was set up with. -/
def Call.InOrder (hasData : Bool) (run : Nat) (before : List (Call S)) : Call S → Prop
  | .initGroup l => .initGroup l ∉ before
  | .use _ t process data allocated =>
    .initGroup (S.groupLeader t) ∈ before ∧
      (∀ d, .cleanupGroup (S.groupLeader t) d ∉ before) ∧ process = S.groupLeader t ∧
      data = GState.block hasData run (S.groupLeader t) ∧ allocated = hasData
  | .cleanupGroup l data =>
    .initGroup l ∈ before ∧ (∀ d, .cleanupGroup l d ∉ before) ∧ data = GState.block hasData run l

/-- **Group data outlives its users**: in every state of a batch the calls of the run
are in order, and when all processes are joined every group has been cleaned up. -/
def OutlivesUsers (S : Setup) (hasData : Bool) : Prop :=
  ∀ g, GReachable S hasData g →
    EachAfter (Call.InOrder hasData g.state.run) g.calls ∧
    (g.state.parent = .print → ∀ l, S.IsLeader l → ∃ d, .cleanupGroup l d ∈ g.calls)

/-! ## The invariant -/

/-- The process has called `workload_init_group`. -/
def ProcPc.PastInit : ProcPc → Prop
  | .absent => False
  | .initGroup => False
  | _ => True

structure GInv (hasData : Bool) (g : GState S) : Prop where
  inv : Inv g.state
  inOrder : EachAfter (Call.InOrder hasData g.state.run) g.calls
  home : ∀ t, g.state.thread t ≠ .absent → g.home t = S.groupLeader t
  inits : ∀ l, .initGroup l ∈ g.calls ↔ (g.state.proc l).PastInit
  cleanups : ∀ l, (∃ d, .cleanupGroup l d ∈ g.calls) ↔ g.groupCleaned l = true
  data : ∀ l, (g.state.proc l).PastInit → g.groupCleaned l = false →
    g.tgData l = GState.block hasData g.state.run l ∧
      g.allocated ⟨g.state.run, l⟩ = hasData
  cleaning : ∀ l, g.groupCleaned l = true →
    g.state.proc l = .cleanupGroup ∨ g.state.proc l = .exited
  exited : ∀ l, g.state.proc l = .exited → g.groupCleaned l = true

/-- A thread that is neither absent nor done runs in a process that is past the
group's set-up and not yet at its clean-up. -/
theorem Inv.leader_active {s : State S} (h : Inv s) {t : S.Task} (ha : s.thread t ≠ .absent)
    (hd : s.thread t ≠ .done) :
    (s.proc (S.groupLeader t)).PastInit ∧ s.proc (S.groupLeader t) ≠ .cleanupGroup ∧
      s.proc (S.groupLeader t) ≠ .exited := by
  have hst := (h.started t).mp ha
  have hfin := mt (h.finished t) hd
  cases hpc : s.proc (S.groupLeader t) <;>
    simp_all [ProcPc.PastInit, ProcPc.Started, ProcPc.Finished]

/-- **A task's call is in order** while its thread is neither absent nor done. -/
theorem GInv.use_inOrder (h : GInv hasData g) {t : S.Task} (what : Use)
    (ha : g.state.thread t ≠ .absent) (hd : g.state.thread t ≠ .done) :
    (g.use what t).InOrder hasData g.state.run g.calls := by
  obtain ⟨hpast, hclean, hexit⟩ := h.inv.leader_active ha hd
  have hnot : g.groupCleaned (S.groupLeader t) = false := by
    by_contra hc
    rcases h.cleaning _ (by simpa using hc) with hpc | hpc
    · exact hclean hpc
    · exact hexit hpc
  obtain ⟨hdata, hallocated⟩ := h.data _ hpast hnot
  refine ⟨(h.inits _).mpr hpast, ?_, h.home t ha, hdata, ?_⟩
  · intro d hmem
    have hc := (h.cleanups _).mp ⟨d, hmem⟩
    rw [hnot] at hc
    cases hc
  · rw [hdata]
    cases hasData
    · rfl
    · simpa [GState.block] using hallocated

/-- A task's call changes nothing else. -/
theorem GInv.use (h : GInv hasData g) {t : S.Task} (what : Use)
    (ha : g.state.thread t ≠ .absent) (hd : g.state.thread t ≠ .done) (inited cleaned) :
    GInv hasData { g with inited, cleaned, calls := g.calls ++ [g.use what t] } where
  inv := h.inv
  inOrder := h.inOrder.snoc (h.use_inOrder what ha hd)
  home := h.home
  inits l := by simpa [GState.use] using h.inits l
  cleanups l := by simpa [GState.use] using h.cleanups l
  data := h.data
  cleaning := h.cleaning
  exited := h.exited

theorem GInv.cleanupGroup (h : GInv hasData g) {l : S.Task}
    (hpc : g.state.proc l = .cleanupGroup) (hc : g.groupCleaned l = false) :
    GInv hasData { g with
      tgData := Function.update g.tgData l none
      allocated := fun d => g.allocated d && g.tgData l ≠ some d
      groupCleaned := Function.update g.groupCleaned l true
      calls := g.calls ++ [.cleanupGroup l (g.tgData l)] } where
  inv := h.inv
  inOrder := by
    have hpast : (g.state.proc l).PastInit := by
      rw [hpc]
      trivial
    have hnew : ∀ d, .cleanupGroup l d ∉ g.calls := by
      intro d hmem
      have hcl := (h.cleanups l).mp ⟨d, hmem⟩
      rw [hc] at hcl
      cases hcl
    exact h.inOrder.snoc ⟨(h.inits l).mpr hpast, hnew, (h.data l hpast hc).1⟩
  home := h.home
  inits k := by simpa using h.inits k
  cleanups k := by
    have hk := h.cleanups k
    by_cases hkl : k = l
    · subst hkl
      simp
    · simpa [Function.update_of_ne hkl, hkl] using hk
  data k hpast hk := by
    by_cases hkl : k = l
    · subst hkl
      simp at hk
    · simp only [Function.update_of_ne hkl] at hk ⊢
      obtain ⟨hdata, hallocated⟩ := h.data k hpast hk
      refine ⟨hdata, ?_⟩
      have hother : g.tgData l ≠ some ⟨g.state.run, k⟩ := by
        rw [(h.data l (by rw [hpc]; trivial) hc).1]
        unfold GState.block
        split
        · simp [Ne.symm hkl]
        · simp
      simp [hallocated, hother]
  cleaning k hk := by
    by_cases hkl : k = l
    · subst hkl
      exact .inl hpc
    · simp only [Function.update_of_ne hkl] at hk
      exact h.cleaning k hk
  exited k hk := by
    have hkl : k ≠ l := by
      rintro rfl
      rw [hpc] at hk
      cases hk
    simp only [Function.update_of_ne hkl]
    exact h.exited k hk

/-! ### An action -/

theorem ProcMove.pastInit {l : S.Task} {a : Action S} {pc pc' : ProcPc} (h : ProcMove l a pc pc') :
    pc'.PastInit ↔ pc.PastInit ∨ a = .initGroup l := by
  cases h with
  | stay _ hproc =>
    have hinit : a ≠ .initGroup l := by
      rintro rfl
      exact hproc rfl
    simp [hinit]
  | _ => simp [ProcPc.PastInit]

theorem ProcMove.cleaning {l : S.Task} {a : Action S} {pc pc' : ProcPc} (h : ProcMove l a pc pc')
    (hpc : pc = .cleanupGroup ∨ pc = .exited) : pc' = .cleanupGroup ∨ pc' = .exited := by
  cases h with
  | stay => exact hpc
  | _ => simp at hpc ⊢

theorem ProcMove.exited {l : S.Task} {a : Action S} {pc : ProcPc}
    (h : ProcMove l a pc .exited) : pc = .exited ∨ a = .exit l := by
  cases h with
  | stay => exact .inl rfl
  | exit => exact .inr rfl

section After

variable {a : Action S}

theorem GState.acts_after (g : GState S) (hasData : Bool) (hen : a.Enabled g.state) :
    Acts g.state a (g.after hasData a).state := ⟨hen, g.state_after a⟩

theorem GState.run_after (hn : a ≠ .again) : (g.after hasData a).state.run = g.state.run := by
  cases a with
  | again => exact absurd rfl hn
  | _ => rfl

theorem GState.groupCleaned_after (hn : a ≠ .again) :
    (g.after hasData a).groupCleaned = g.groupCleaned := by
  cases a with
  | again => exact absurd rfl hn
  | _ => rfl

theorem GState.initGroup_mem_after (hn : a ≠ .again) {l : S.Task} :
    .initGroup l ∈ (g.after hasData a).calls ↔ .initGroup l ∈ g.calls ∨ a = .initGroup l := by
  cases a with
  | again => exact absurd rfl hn
  | initGroup k => simp [GState.after, eq_comm]
  | _ => simp [GState.after]

/-- A group that is set up keeps its block. -/
theorem GState.data_after {l : S.Task} (h : g.tgData l = GState.block hasData g.state.run l ∧
    g.allocated ⟨g.state.run, l⟩ = hasData) :
    (g.after hasData a).tgData l = GState.block hasData g.state.run l ∧
      (g.after hasData a).allocated ⟨g.state.run, l⟩ = hasData := by
  cases a with
  | initGroup k =>
    by_cases hlk : l = k
    · subst hlk
      exact ⟨Function.update_self .., Function.update_self ..⟩
    · have hne : (⟨g.state.run, l⟩ : GroupData S) ≠ ⟨g.state.run, k⟩ := by simp [hlk]
      simpa only [GState.after, Function.update_of_ne hlk, Function.update_of_ne hne] using h
  | _ => exact h

end After

section Acting

variable {a : Action S} (h : GInv hasData g) (hen : a.Enabled g.state)

include h hen

theorem GInv.home_act (t : S.Task) (ht : (g.after hasData a).state.thread t ≠ .absent) :
    (g.after hasData a).home t = S.groupLeader t := by
  have hhome := h.home t
  cases a with
  | spawn l u =>
    have hl := h.inv.isLeader (l := l) (by simp [hen.1])
    have hlead := Setup.leader_eq_of_member hl hen.2
    simp only [GState.after, Action.apply, State.setProc, State.setThread,
      Function.update_apply] at ht ⊢
    grind
  | spawned l =>
    have hl : S.groupLeader l = l := h.inv.isLeader (l := l) (by rw [hen]; simp)
    simp only [GState.after, Action.apply, State.setProc, State.setThread,
      Function.update_apply] at ht ⊢
    grind
  | _ =>
    simp only [Action.Enabled] at hen
    simp only [GState.after, Action.apply, State.setProc, State.setThread, State.startRun,
      Function.update_apply] at ht ⊢
    grind

theorem GInv.inits_act (l : S.Task) : .initGroup l ∈ (g.after hasData a).calls ↔
    ((g.after hasData a).state.proc l).PastInit := by
  by_cases hn : a = .again
  · subst hn
    exact ⟨fun hmem => absurd hmem (List.not_mem_nil), fun hpast => hpast.elim⟩
  · have hmove := (g.acts_after hasData hen).procMove h.inv hn l
    rw [GState.initGroup_mem_after hn, h.inits l]
    exact hmove.pastInit.symm

theorem GInv.data_act (l : S.Task) (hpast : ((g.after hasData a).state.proc l).PastInit)
    (hc : (g.after hasData a).groupCleaned l = false) :
    (g.after hasData a).tgData l = GState.block hasData (g.after hasData a).state.run l ∧
      (g.after hasData a).allocated ⟨(g.after hasData a).state.run, l⟩ = hasData := by
  by_cases hn : a = .again
  · subst hn
    exact hpast.elim
  · have hmove := (g.acts_after hasData hen).procMove h.inv hn l
    rw [GState.groupCleaned_after hn] at hc
    rw [GState.run_after hn]
    rcases hmove.pastInit.mp hpast with hbefore | rfl
    · exact g.data_after (h.data l hbefore hc)
    · exact ⟨Function.update_self .., Function.update_self ..⟩

theorem GInv.cleaning_act (l : S.Task) (hc : (g.after hasData a).groupCleaned l = true) :
    (g.after hasData a).state.proc l = .cleanupGroup ∨
      (g.after hasData a).state.proc l = .exited := by
  by_cases hn : a = .again
  · subst hn
    cases hc
  · have hmove := (g.acts_after hasData hen).procMove h.inv hn l
    rw [GState.groupCleaned_after hn] at hc
    exact hmove.cleaning (h.cleaning l hc)

theorem GInv.exited_act (hguard : g.Guard a) (l : S.Task)
    (hx : (g.after hasData a).state.proc l = .exited) :
    (g.after hasData a).groupCleaned l = true := by
  by_cases hn : a = .again
  · subst hn
    cases hx
  · have hmove := (g.acts_after hasData hen).procMove h.inv hn l
    rw [GState.groupCleaned_after hn]
    rw [hx] at hmove
    rcases hmove.exited with hbefore | rfl
    · exact h.exited l hbefore
    · exact hguard

theorem GInv.cleanups_act (l : S.Task) :
    (∃ d, .cleanupGroup l d ∈ (g.after hasData a).calls) ↔
      (g.after hasData a).groupCleaned l = true := by
  have hcleanups := h.cleanups l
  cases a with
  | initGroup k => simpa [GState.after] using hcleanups
  | again => simp [GState.after]
  | _ => exact hcleanups

theorem GInv.inOrder_act :
    EachAfter (Call.InOrder hasData (g.after hasData a).state.run) (g.after hasData a).calls := by
  cases a with
  | initGroup l =>
    refine h.inOrder.snoc fun hmem => ?_
    have hpast := (h.inits l).mp hmem
    rw [hen] at hpast
    exact hpast
  | again => exact eachAfter_nil _
  | _ => exact h.inOrder

end Acting

theorem GInv.step (h : GInv hasData g) (hs : GStep S hasData g g') : GInv hasData g' := by
  cases hs with
  | act a hen hguard =>
    refine ⟨?_, h.inOrder_act hen, h.home_act hen, h.inits_act hen, h.cleanups_act hen,
      h.data_act hen, h.cleaning_act hen, h.exited_act hen hguard⟩
    rcases (GStep.act a hen hguard : GStep S hasData g _).state with hsame | hstep
    · rw [hsame]
      exact h.inv
    · exact h.inv.step hstep
  | initTask t hpc => exact h.use .initTask (by simp [hpc]) (by simp [hpc]) _ g.cleaned
  | doWork t k hpc => exact h.use .doWork (by simp [hpc]) (by simp [hpc]) g.inited g.cleaned
  | cleanupTask t hpc => exact h.use .cleanupTask (by simp [hpc]) (by simp [hpc]) g.inited _
  | cleanupGroup l hpc hc => exact h.cleanupGroup hpc hc

theorem GInv.start : GInv hasData (GState.start S) where
  inv := .start
  inOrder := eachAfter_nil _
  home _ h := absurd rfl h
  inits _ := ⟨nofun, fun h => h.elim⟩
  cleanups _ := by simp [GState.start]
  data _ h := h.elim
  cleaning _ := nofun
  exited _ := nofun

theorem GInv.of_reachable (h : GReachable S hasData g) : GInv hasData g := by
  induction h with
  | refl => exact .start
  | tail _ hs ih => exact ih.step hs

/-- **Group data outlives its users** in every interleaving, and in every state that a batch
comes to. -/
theorem outlivesUsers (S : Setup) (hasData : Bool) :
    OutlivesUsers S hasData ∧
      ∀ s : State S, Reachable S s → ∃ g, GReachable S hasData g ∧ g.state = s := by
  refine ⟨fun g hg => ?_, fun s => exists_gState⟩
  have h := GInv.of_reachable hg
  refine ⟨h.inOrder, fun hp l hl => ?_⟩
  have hx : g.state.proc l = .exited := h.inv.joined l hl (by rw [hp]; trivial)
  exact (h.cleanups l).mpr (h.exited l hx)

end Chronos.Run
