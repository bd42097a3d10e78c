import Chronos.Taskset.Entries
import Chronos.Taskset.Leaders

/-!
# Scheduling domains

The table of domains is filled from the front while the tasks are read: a task whose
set of processors is new takes the first free place. `run` sets the scheduler of the
domains up to the first free place, which are the sets of the tasks.
-/

namespace Chronos.Taskset

open Lib

/-- The loop of `run` over `domain_masks`, with the masks for which `set_scheduler` is
called; `fatal_error` ends it if a call fails. -/
def setSchedulers (fails : Nat → Bool) : List Nat → List Nat × Bool
  | [] => ([], true)
  | mask :: masks =>
    if mask = 0 then ([], true)
    else if fails mask then ([mask], false)
    else (mask :: (setSchedulers fails masks).1, (setSchedulers fails masks).2)

/-- The table with room for `size` domains begins with the different masks of the
tasks, which are not zero, and the rest of it is zero. -/
def DomainTable (size : Nat) (tasks : List Task) (table : List Nat) : Prop :=
  ∃ used, table = used ++ List.replicate (size - used.length) 0 ∧ used.length ≤ size ∧
    used.Nodup ∧ (∀ mask ∈ used, mask ≠ 0) ∧
    ∀ mask, mask ∈ used ↔ ∃ t ∈ tasks, t.cpuMask = mask

/-- The scheduler is set for the masks of the tasks and no other ones, never twice. It is
set for all of them, once each, exactly if no call fails; else the call that fails is the
last one. -/
structure SetForTasks (fails : Nat → Bool) (tasks : List Task) (calls : List Nat) (done : Bool) :
    Prop where
  only : ∀ mask ∈ calls, ∃ t ∈ tasks, t.cpuMask = mask
  nodup : calls.Nodup
  once : done = true → ∀ t ∈ tasks, calls.count t.cpuMask = 1
  done_iff : done = true ↔ ∀ t ∈ tasks, fails t.cpuMask = false
  failed : done = false → ∃ before mask, calls = before ++ [mask] ∧ fails mask = true ∧
    ∀ earlier ∈ before, fails earlier = false

/-- **The domains match the affinities of the tasks.** -/
structure DomainsMatch {σ : Type} (m : Machine) (T : Tester σ) : Prop where
  table : DomainTable m.numProcessors T.taskList T.domainMasks
  below : ∀ t ∈ T.taskList, ∀ i, t.cpuMask.testBit i = true → i < m.numProcessors
  set : ∀ fails, SetForTasks fails T.taskList (setSchedulers fails T.domainMasks).1
    (setSchedulers fails T.domainMasks).2

/-! ## Setting the schedulers -/

section SetSchedulers

variable {fails : Nat → Bool} {used : List Nat} {k : Nat}

/-- The calls are the ones for the domains in use if none of them fails. -/
theorem setSchedulers_eq (hused : ∀ mask ∈ used, mask ≠ 0)
    (hcalls : ∀ mask ∈ used, fails mask = false) :
    setSchedulers fails (used ++ List.replicate k 0) = (used, true) := by
  induction used with
  | nil => cases k <;> simp [setSchedulers, List.replicate_succ]
  | cons mask used ih =>
    have hrest := ih (fun d hd => hused d (List.mem_cons_of_mem mask hd))
      fun d hd => hcalls d (List.mem_cons_of_mem mask hd)
    rw [List.cons_append, setSchedulers, if_neg (hused mask List.mem_cons_self),
      if_neg (by simp [hcalls mask List.mem_cons_self]), hrest]

/-- The first call that fails is the last one. -/
theorem setSchedulers_of_fails {mask : Nat} {table : List Nat} (hused : ∀ d ∈ used, d ≠ 0)
    (hcalls : ∀ d ∈ used, fails d = false) (hmask : mask ≠ 0) (hfails : fails mask = true) :
    setSchedulers fails (used ++ mask :: table) = (used ++ [mask], false) := by
  induction used with
  | nil => simp [setSchedulers, hmask, hfails]
  | cons d used ih =>
    have hrest := ih (fun e he => hused e (List.mem_cons_of_mem d he))
      fun e he => hcalls e (List.mem_cons_of_mem d he)
    rw [List.cons_append, setSchedulers, if_neg (hused d List.mem_cons_self),
      if_neg (by simp [hcalls d List.mem_cons_self]), hrest, List.cons_append]

theorem DomainTable.setForTasks {size : Nat} {tasks : List Task} {table : List Nat}
    (h : DomainTable size tasks table) :
    SetForTasks fails tasks (setSchedulers fails table).1 (setSchedulers fails table).2 := by
  obtain ⟨used, rfl, -, hnodup, hne, hmem⟩ := h
  have htasks : (∀ t ∈ tasks, fails t.cpuMask = false) ↔ ∀ mask ∈ used, fails mask = false := by
    simp only [hmem]
    grind
  by_cases hcalls : ∀ mask ∈ used, fails mask = false
  · rw [setSchedulers_eq hne hcalls]
    refine ⟨fun mask hmask => (hmem mask).mp hmask, hnodup, fun _ t ht => ?_, ?_, nofun⟩
    · exact List.count_eq_one_of_mem hnodup ((hmem _).mpr ⟨t, ht, rfl⟩)
    · exact iff_of_true rfl (htasks.mpr hcalls)
  · -- the domains up to the first one whose call fails
    obtain ⟨before, mask, after, rfl, hbefore, hfails⟩ :
        ∃ before mask after, used = before ++ mask :: after ∧
          (∀ d ∈ before, fails d = false) ∧ fails mask = true := by
      have hsome : (used.find? fails).isSome = true := by
        rw [List.find?_isSome]
        push Not at hcalls
        simpa using hcalls
      obtain ⟨mask, hfind⟩ := Option.isSome_iff_exists.mp hsome
      obtain ⟨hfails, before, after, hsplit, hbefore⟩ := List.find?_eq_some_iff_append.mp hfind
      exact ⟨before, mask, after, hsplit, fun d hd => by simpa using hbefore d hd, hfails⟩
    rw [List.append_assoc, List.cons_append, setSchedulers_of_fails
      (fun d hd => hne d (List.mem_append_left _ hd)) hbefore (hne mask (by simp)) hfails]
    have hsub : (before ++ [mask]).Sublist (before ++ mask :: after) :=
      (List.singleton_sublist.mpr List.mem_cons_self).append_left before
    refine ⟨fun d hd => (hmem d).mp (hsub.subset hd), hnodup.sublist hsub, nofun, ?_, fun _ => ?_⟩
    · exact iff_of_false nofun (mt htasks.mp hcalls)
    · exact ⟨before, mask, rfl, hfails, hbefore⟩

end SetSchedulers

/-! ## Filling the table -/

/-- A mask that has a place is in use already, or takes the first free place. -/
theorem addDomainMask_eq_some {mask k : Nat} {used table : List Nat} (hne : mask ≠ 0)
    (hused : ∀ d ∈ used, d ≠ 0)
    (h : addDomainMask mask (used ++ List.replicate k 0) = some table) :
    (mask ∈ used ∧ table = used ++ List.replicate k 0) ∨
      (mask ∉ used ∧ ∃ k', k = k' + 1 ∧ table = (used ++ [mask]) ++ List.replicate k' 0) := by
  by_cases hmem : mask ∈ used
  · rw [addDomainMask_of_mem hmem hused] at h
    exact .inl ⟨hmem, (Option.some.inj h).symm⟩
  · rw [addDomainMask_append hmem hused] at h
    cases k with
    | zero => cases h
    | succ k =>
      rw [List.replicate_succ, addDomainMask, if_neg hne.symm, if_pos rfl] at h
      refine .inr ⟨hmem, k, rfl, ?_⟩
      rw [← Option.some.inj h]
      simp

theorem DomainTable.add {size : Nat} {tasks : List Task} {table table' : List Nat} {t : Task}
    (h : DomainTable size tasks table) (hne : t.cpuMask ≠ 0)
    (hadd : addDomainMask t.cpuMask table = some table') :
    DomainTable size (t :: tasks) table' := by
  obtain ⟨used, rfl, hlen, hnodup, hused, hmem⟩ := h
  rcases addDomainMask_eq_some hne hused hadd with ⟨hin, rfl⟩ | ⟨hout, k, hk, rfl⟩
  · refine ⟨used, rfl, hlen, hnodup, hused, fun mask => ?_⟩
    rw [hmem, List.exists_mem_cons_iff]
    constructor
    · exact .inr
    · rintro (rfl | hold)
      · exact (hmem _).mp hin
      · exact hold
  · have hsize : size - (used ++ [t.cpuMask]).length = k := by
      rw [List.length_append, List.length_singleton]
      omega
    refine ⟨used ++ [t.cpuMask], by rw [hsize], ?_, ?_, ?_, fun mask => ?_⟩
    · rw [List.length_append, List.length_singleton]
      omega
    · rw [← List.concat_eq_append]
      exact List.Nodup.concat hout hnodup
    · exact List.forall_mem_append.mpr ⟨hused, List.forall_mem_singleton.mpr hne⟩
    · rw [List.mem_append, List.mem_singleton, hmem, List.exists_mem_cons_iff, or_comm, eq_comm]

/-- The table only depends on the masks of the tasks. -/
theorem DomainTable.congr {size : Nat} {tasks tasks' : List Task} {table : List Nat}
    (h : DomainTable size tasks table)
    (hmap : tasks'.map Task.cpuMask = tasks.map Task.cpuMask) : DomainTable size tasks' table := by
  obtain ⟨used, htable, hlen, hnodup, hused, hmem⟩ := h
  refine ⟨used, htable, hlen, hnodup, hused, fun mask => ?_⟩
  rw [hmem, ← List.mem_map, ← List.mem_map, hmap]

/-! ## The bits of a mask -/

section Bits

variable {m : Machine} {mask mask' cpu i : Nat}

/-- A mask with processors that exist only. -/
def BitsBelow (n mask : Nat) : Prop := ∀ i, mask.testBit i = true → i < n

theorem BitsBelow.or_cpuBit (h : BitsBelow m.numProcessors mask) (hm : m.numProcessors ≤ 64)
    (hcpu : cpu < m.numProcessors) : BitsBelow m.numProcessors (mask ||| cpuBit m cpu) := by
  intro i hi
  rw [Nat.testBit_or, cpuBit_eq (by omega), Nat.testBit_two_pow, Bool.or_eq_true] at hi
  rcases hi with hi | hi
  · exact h i hi
  · exact of_decide_eq_true hi ▸ hcpu

theorem bitsBelow_zero {n : Nat} : BitsBelow n 0 := by
  intro i hi
  rw [Nat.zero_testBit] at hi
  cases hi

/-- **A task runs on processors that exist.** -/
theorem bitsBelow_of_cpuMask {cpus : List Char} (hm : m.numProcessors ≤ 64)
    (h : cpuMask m cpus = .ok mask) : BitsBelow m.numProcessors mask := by
  unfold cpuMask at h
  split at h
  · cases h
    have hrange : ∀ i ∈ List.range m.numProcessors, i < m.numProcessors :=
      fun i => List.mem_range.mp
    generalize List.range m.numProcessors = is at hrange
    induction is using List.reverseRecOn with
    | nil => exact bitsBelow_zero
    | append_singleton is i ih =>
      rw [List.foldl_append]
      exact (ih fun j hj => hrange j (List.mem_append_left _ hj)).or_cpuBit hm
        (hrange i (by simp))
  · refine foldlM_invariant (fun _ mask => BitsBelow m.numProcessors mask) bitsBelow_zero ?_ h
    intro _ digits mask mask' hbelow hadd
    unfold addCpu at hadd
    split at hadd
    · cases hadd
    · split at hadd
      · cases hadd
      · next hcpu =>
        cases hadd
        exact hbelow.or_cpuBit hm (not_le.mp hcpu)

end Bits

/-! ## An accepted file -/

section Loading

variable {σ : Type} {A : Allocator σ} {m : Machine} {T T' : Tester σ}

/-- What holds after any number of entries. -/
structure DomainsInv (m : Machine) (T : Tester σ) : Prop where
  table : DomainTable m.numProcessors T.taskList T.domainMasks
  below : ∀ t ∈ T.taskList, BitsBelow m.numProcessors t.cpuMask

theorem DomainsInv.loadItem {item : Item} (hm : m.numProcessors ≤ 64) (h : DomainsInv m T)
    (hload : loadItem A m T item = .ok T') : DomainsInv m T' := by
  rcases loadItem_cases hload with
    ⟨w, optional, mask, -, hmask, hne, hmasks, htasks⟩ | ⟨-, hdomains, hfields⟩
  · have hcpu : (initGroupLeader T.taskList (taskOf m T.numLocks w mask optional)).cpuMask =
        mask := by
      rw [initGroupLeader_field Task.cpuMask (fun _ _ => rfl),
        taskOf_field Task.cpuMask fun _ _ _ => rfl]
    refine ⟨htasks ▸ h.table.add (by rwa [hcpu]) (by rwa [hcpu]), ?_⟩
    intro t ht
    rw [htasks] at ht
    rcases List.mem_cons.mp ht with rfl | ht
    · rw [hcpu]
      exact bitsBelow_of_cpuMask hm hmask
    · exact h.below t ht
  · have hmap := hfields Task.cpuMask fun _ _ => rfl
    refine ⟨hdomains ▸ h.table.congr hmap, ?_⟩
    have hbelow := List.forall_mem_map.mpr h.below
    rw [← hmap] at hbelow
    exact List.forall_mem_map.mp hbelow

theorem domainsInv_begun (options : Options) (heap : σ) : DomainsInv m (begun m options heap) where
  table := ⟨[], rfl, Nat.zero_le _, List.nodup_nil, nofun, by simp [begun, Tester.start]⟩
  below := nofun

/-- **The domains of an accepted file match its tasks.** -/
theorem domainsMatch_of_initTasks {options : Options} {heap : σ} {f : List Char}
    (hm : m.numProcessors ≤ 64)
    (h : initTasks A m (some f) (Tester.start options heap) = .ok T) : DomainsMatch m T := by
  obtain ⟨items, T₀, heap, -, hinv, -, -, rfl⟩ :=
    initTasks_invariant (fun _ T => DomainsInv m T) h (domainsInv_begun options)
      fun _ _ _ _ hP hload => hP.loadItem hm hload
  exact ⟨hinv.table, hinv.below, fun _ => hinv.table.setForTasks⟩

end Loading

theorem domainsMatch_threeTasks : DomainsMatch sampleMachine threeTasksTester :=
  domainsMatch_of_initTasks (by decide) initTasks_threeTasks

end Chronos.Taskset
