import Chronos.Taskset.Entries
import Chronos.Taskset.Locks

/-!
# Reading a taskset back

A file that a taskset was written to is read back as that taskset exactly when it
fits the buffers and the conversions of the reader, and its requests are served.
-/

namespace Chronos.Taskset

open Lib

variable {σ : Type} {A : Allocator σ} {m : Machine} {ts : TasksetSpec m.numProcessors}
  {T T' : Tester σ}

/-- Comments are passed over. -/
theorem foldlM_filter_comment {items : List Item} :
    (items.filter (· ≠ .comment)).foldlM (loadItem A m) T = items.foldlM (loadItem A m) T := by
  induction items generalizing T with
  | nil => rfl
  | cons item items ih =>
    by_cases h : item = .comment
    · subst h
      rw [List.filter_cons_of_neg (by simp), ih]
      rfl
    · rw [List.filter_cons_of_pos (by simpa using h), List.foldlM_cons, List.foldlM_cons]
      congr 1
      funext T₁
      exact ih

theorem foldlM_append_eq_ok {items items' : List Item} :
    (items ++ items').foldlM (loadItem A m) T = .ok T' ↔
      ∃ T₁, items.foldlM (loadItem A m) T = .ok T₁ ∧ items'.foldlM (loadItem A m) T₁ = .ok T' := by
  rw [List.foldlM_append, bind_eq_ok]

/-- All that is asked of the heap for a taskset. -/
def TasksetSpec.requests (ts : TasksetSpec m.numProcessors) : List Nat :=
  [sizeofLong * m.numProcessors] ++ ([sizeofChronosMutexT * ts.numLocks] ++
    (ts.tasks.flatMap (·.requests ts.numLocks) ++ [sizeofPointer * ts.tasks.length]))

/-- The number of locks fits an `int`, the lists fit their buffers, and `%ld` reads
every period and usage. -/
structure TasksetSpec.Fits (ts : TasksetSpec m.numProcessors) : Prop where
  numLocks : ts.numLocks < 2 ^ 31
  lists : ∀ t ∈ ts.tasks, t.ListsFit
  times : ∀ t ∈ ts.tasks, t.period < 2 ^ 63 ∧ t.execTime < 2 ^ 63

/-- The entries of a file that a taskset was written to, by their kinds. -/
theorem split_entries {f : List Char} (h : ts.Renders f) :
    ∃ items w tasks groups, lex f = some items ∧
      items.filter (· ≠ .comment) = .locks w :: (tasks ++ groups) ∧
      w.value = saturate ts.numLocks ∧
      List.Forall₂ Entry.Reads (ts.tasks.map .task) tasks ∧
      List.Forall₂ Entry.Reads (ts.groups.map .group) groups := by
  obtain ⟨items, hlex, hreads⟩ := Lines.lexed h (by
    intro e he
    simp only [TasksetSpec.entries, List.tail_cons, List.mem_append, List.mem_map] at he
    rcases he with ⟨t, -, rfl⟩ | ⟨g, -, rfl⟩ <;> simp [Entry.letter])
  obtain ⟨item, rest, hread, hrest, heq⟩ := List.forall₂_cons_left_iff.mp hreads
  cases item with
  | comment => cases hread
  | task _ _ => cases hread
  | group _ _ => cases hread
  | locks w =>
    have htasks := List.forall₂_take (ts.tasks.map Entry.task).length hrest
    have hgroups := List.forall₂_drop (ts.tasks.map Entry.task).length hrest
    rw [List.take_left] at htasks
    rw [List.drop_left] at hgroups
    exact ⟨items, w, _, _, lex_eq_some.mpr hlex, by rw [heq, List.take_append_drop], hread, htasks,
      hgroups⟩

/-- The number of locks in the tester is an `int`. -/
theorem numLocks_lt_of_initTasks {f : List Char} {options : Options} {heap : σ}
    (h : initTasks A m (some f) (Tester.start options heap) = .ok T) : T.numLocks < 2 ^ 31 := by
  obtain ⟨items, T₀, heap, -, hinv, -, -, rfl⟩ := initTasks_invariant LocksInv h
    (locksInv_begun options) fun _ _ _ _ hP hload => hP.loadItem hload
  exact hinv.count ▸ lockCount_lt items

section Rendered

variable {f : List Char} (options : Options) (heap : σ)

/-- The tester when the first task line is read. -/
def TasksetSpec.begun (ts : TasksetSpec m.numProcessors) (options : Options) (heap : σ) : Tester σ :=
  withLocks ts.numLocks
    { Tester.start options heap with domainMasks := List.replicate m.numProcessors 0 } heap

theorem tasksState_begun (ts : TasksetSpec m.numProcessors) :
    TasksState ts [] (ts.begun options heap) where
  numLocks := rfl
  seenGroup := rfl
  domains := ⟨[], rfl, List.nodup_nil, by simp, by simp⟩
  taskList := rfl

/-- The loop of `init_tasks` on such a file, by the kinds of the entries. -/
theorem initTasks_eq_ok_of_renders (h : ts.Renders f) (hn : ts.numLocks < 2 ^ 31) :
    ∃ tasks groups, List.Forall₂ Entry.Reads (ts.tasks.map .task) tasks ∧
      List.Forall₂ Entry.Reads (ts.groups.map .group) groups ∧
      ∀ T', initTasks A m (some f) (Tester.start options heap) = .ok T' ↔
        ∃ heap₁, A.serve heap [sizeofLong * m.numProcessors] = some heap₁ ∧
        ∃ heap₂, A.serve heap₁ [sizeofChronosMutexT * ts.numLocks] = some heap₂ ∧
        ∃ T₁, tasks.foldlM (loadItem A m) (ts.begun options heap₂) = .ok T₁ ∧
        ∃ T₂, groups.foldlM (loadItem A m) T₁ = .ok T₂ ∧ finishTasks A m T₂ = .ok T' := by
  obtain ⟨items, w, tasks, groups, hlex, hitems, hw, htasks, hgroups⟩ := split_entries h
  refine ⟨tasks, groups, htasks, hgroups, fun T' => ?_⟩
  have hcount : toInt w.value = ts.numLocks := by
    rw [hw, saturate_eq_self (by omega) (by omega)]
    exact toInt_eq_self (by omega) (by omega)
  have hsize : toULong (sizeofChronosMutexT * ts.numLocks) = sizeofChronosMutexT * ts.numLocks := by
    simp only [toULong, sizeofChronosMutexT]
    omega
  have hfold (T T₂ : Tester σ) : items.foldlM (loadItem A m) T = .ok T₂ ↔
      ∃ T₀, loadItem A m T (.locks w) = .ok T₀ ∧ ∃ T₁, tasks.foldlM (loadItem A m) T₀ = .ok T₁ ∧
        groups.foldlM (loadItem A m) T₁ = .ok T₂ := by
    rw [← foldlM_filter_comment, hitems]
    simp only [foldlM_cons_eq_ok, foldlM_append_eq_ok]
  rw [initTasks_eq_ok]
  simp only [hlex, Option.some.injEq, exists_eq_left', beginTasks_eq_ok, hfold,
    loadItem_locks_eq_ok, hcount, hsize]
  constructor
  · rintro ⟨_, ⟨heap₁, hheap₁, rfl⟩, T₂, ⟨_, ⟨-, -, heap₂, hheap₂, rfl⟩, T₁, htasks, hgroups⟩, hfinish⟩
    exact ⟨heap₁, hheap₁, heap₂, hheap₂, T₁, htasks, T₂, hgroups, hfinish⟩
  · rintro ⟨heap₁, hheap₁, heap₂, hheap₂, T₁, htasks, T₂, hgroups, hfinish⟩
    exact ⟨_, ⟨heap₁, hheap₁, rfl⟩, T₂, ⟨_, ⟨rfl, by omega, heap₂, hheap₂, rfl⟩, T₁, htasks, hgroups⟩,
      hfinish⟩

/-- **What a file is read as** once the number of locks fits. -/
theorem initTasks_of_renders (h : ts.Renders f) (hn : ts.numLocks < 2 ^ 31) :
    (∀ T, initTasks A m (some f) (Tester.start options heap) = .ok T →
      T.numLocks = ts.numLocks ∧ T.taskList = (tasksRead ts ts.groups ts.tasks).reverse) ∧
    ((∃ T, initTasks A m (some f) (Tester.start options heap) = .ok T) ↔
      (∀ t ∈ ts.tasks, t.ListsFit) ∧ (A.serve heap ts.requests).isSome ∧ m.initAborts = 0) := by
  obtain ⟨tasks, groups, htasks, hgroups, hiff⟩ :=
    initTasks_eq_ok_of_renders (A := A) options heap h hn
  have hload (heap₂ : σ) := TasksState.loadAll (A := A) htasks
    (tasksState_begun options heap₂ ts) hn rfl
  constructor
  · intro T hT
    obtain ⟨heap₁, -, heap₂, -, T₁, hT₁, T₂, hT₂, hfinish⟩ := (hiff T).mp hT
    obtain ⟨T₂', hT₂', -, hstate⟩ :=
      GroupsState.loadAll (A := A) hgroups ((hload heap₂).1 T₁ hT₁).groups rfl
    rw [hT₂] at hT₂'
    cases hT₂'
    obtain ⟨-, -, -, heap₃, -, rfl⟩ := finishTasks_eq_ok.mp hfinish
    exact ⟨hstate.numLocks, hstate.taskList⟩
  · have hserve : A.serve heap ts.requests =
        (A.serve heap [sizeofLong * m.numProcessors]).bind fun heap₁ =>
          (A.serve heap₁ [sizeofChronosMutexT * ts.numLocks]).bind fun heap₂ =>
            (A.serve heap₂ (ts.tasks.flatMap (·.requests ts.numLocks))).bind fun heap₃ =>
              A.serve heap₃ [sizeofPointer * ts.tasks.length] := by
      unfold TasksetSpec.requests
      simp only [Allocator.serve_append]
    rw [hserve]
    simp only [Option.isSome_iff_exists, Option.bind_eq_some_iff]
    constructor
    · rintro ⟨T', hT'⟩
      obtain ⟨heap₁, hheap₁, heap₂, hheap₂, T₁, hT₁, T₂, hT₂, hfinish⟩ := (hiff T').mp hT'
      obtain ⟨hlists, hheap₃⟩ := ((hload heap₂).2 T₁.heap).mp ⟨T₁, hT₁, rfl⟩
      obtain ⟨T₂', hT₂', hsame, hstate⟩ :=
        GroupsState.loadAll (A := A) hgroups ((hload heap₂).1 T₁ hT₁).groups rfl
      rw [hT₂] at hT₂'
      cases hT₂'
      obtain ⟨-, -, haborts, heap₄, hheap₄, -⟩ := finishTasks_eq_ok.mp hfinish
      rw [hsame, hstate.taskList, List.length_reverse, length_tasksRead] at hheap₄
      exact ⟨hlists, ⟨heap₄, heap₁, hheap₁, heap₂, hheap₂, T₁.heap, hheap₃, hheap₄⟩, haborts⟩
    · rintro ⟨hlists, ⟨heap₄, heap₁, hheap₁, heap₂, hheap₂, heap₃, hheap₃, hheap₄⟩, haborts⟩
      obtain ⟨T₁, hT₁, rfl⟩ := ((hload heap₂).2 heap₃).mpr ⟨hlists, hheap₃⟩
      obtain ⟨T₂, hT₂, hsame, hstate⟩ :=
        GroupsState.loadAll (A := A) hgroups ((hload heap₂).1 T₁ hT₁).groups rfl
      have hne : T₂.taskList ≠ [] := by
        rw [hstate.taskList, Ne, List.reverse_eq_nil_iff, ← List.length_eq_zero_iff, length_tasksRead,
          List.length_eq_zero_iff]
        exact ts.tasks_ne_nil
      have hlen : T₂.taskList.length = ts.tasks.length := by
        rw [hstate.taskList, List.length_reverse, length_tasksRead]
      have hfinish : finishTasks A m T₂ = .ok { T₂ with heap := heap₄ } :=
        finishTasks_eq_ok.mpr ⟨by rw [hstate.numLocks]; omega, hne, haborts, heap₄,
          by rw [hsame, hlen]; exact hheap₄, rfl⟩
      exact ⟨_, (hiff _).mpr ⟨heap₁, hheap₁, heap₂, hheap₂, T₁, hT₁, T₂, hT₂, hfinish⟩⟩

theorem TaskSpec.read_eq_self {t : TaskSpec} (h : t.period < 2 ^ 63 ∧ t.execTime < 2 ^ 63) :
    t.read = t := by
  obtain ⟨hperiod, hexec⟩ := h
  unfold read
  rw [Nat.min_eq_left (by omega), Nat.min_eq_left (by omega)]

/-- A task is read as it was written when `%ld` reads its period and its usage. -/
theorem tasksRead_eq_iff : tasksRead ts ts.groups ts.tasks = ts.tasks.mapIdx (ts.toTask m ts.groups) ↔
    ∀ t ∈ ts.tasks, t.period < 2 ^ 63 ∧ t.execTime < 2 ^ 63 := by
  unfold tasksRead
  constructor
  · intro heq t ht
    obtain ⟨i, hi, rfl⟩ := List.mem_iff_getElem.mp ht
    have htask : ts.toTask m ts.groups i ts.tasks[i].read = ts.toTask m ts.groups i ts.tasks[i] := by
      have := congrArg (·[i]?) heq
      simpa [List.getElem?_mapIdx, hi] using this
    have hperiod : min ts.tasks[i].period (2 ^ 63 - 1) = ts.tasks[i].period :=
      congrArg Task.period htask
    have hexec : min ts.tasks[i].execTime (2 ^ 63 - 1) = ts.tasks[i].execTime :=
      congrArg Task.execTime htask
    omega
  · intro htimes
    apply List.ext_getElem (by simp)
    intro i hi hi'
    rw [List.getElem_mapIdx, List.getElem_mapIdx,
      TaskSpec.read_eq_self (htimes _ (List.getElem_mem _))]

/-- **A taskset that was written down is read back** exactly when it fits, its requests
are served and the abort device can be opened. -/
theorem represents_iff (h : ts.Renders f) :
    (∃ T, initTasks A m (some f) (Tester.start options heap) = .ok T ∧ ts.Represents m T) ↔
      ts.Fits ∧ (A.serve heap ts.requests).isSome ∧ m.initAborts = 0 := by
  constructor
  · rintro ⟨T, hT, hrep⟩
    have hn : ts.numLocks < 2 ^ 31 := by
      have hlt := numLocks_lt_of_initTasks hT
      rw [hrep.numLocks] at hlt
      omega
    obtain ⟨hresult, hok⟩ :=
      initTasks_of_renders (A := A) options heap h hn
    obtain ⟨hlists, hserve, haborts⟩ := hok.mp ⟨T, hT⟩
    have htimes := hrep.taskList
    rw [(hresult T hT).2, List.reverse_inj] at htimes
    exact ⟨⟨hn, hlists, tasksRead_eq_iff.mp htimes⟩, hserve, haborts⟩
  · rintro ⟨hfits, hserve, haborts⟩
    obtain ⟨hresult, hok⟩ :=
      initTasks_of_renders (A := A) options heap h hfits.numLocks
    obtain ⟨T, hT⟩ := hok.mpr ⟨hfits.lists, hserve, haborts⟩
    obtain ⟨hnum, hlist⟩ := hresult T hT
    exact ⟨T, hT, hnum, by rw [hlist, tasksRead_eq_iff.mpr hfits.times]⟩

end Rendered

/-! ## A taskset that is read back, and one that is not -/

/-- Five tasks and five locks on four processors. -/
def fiveTasks : TasksetSpec 4 where
  numLocks := 5
  tasks := [
    ⟨.all, 3, 131072, 500000, 150000, 17, some (.listed 2 [3], some 2)⟩,
    ⟨.listed 0 [], 1, 131072, 1000000, 230000, 4, some (.listed 1 [4], some 2)⟩,
    ⟨.listed 1 [2], 2, 786432, 1500000, 410000, 24, some (.listed 0 [2], none)⟩,
    ⟨.listed 0 [2, 3], 2, 786432, 3000000, 300000, 39, some (.listed 4 [0], some 2)⟩,
    ⟨.listed 0 [], 1, 32768, 5000000, 500000, 18, none⟩]
  groups := [⟨1, 131072⟩, ⟨2, 65536⟩]
  processors_le := by decide
  tasks_ne_nil := by decide
  inRange := by decide +kernel
  cpuSets_le := by decide +kernel
  groups_occur := by decide
  wss_range := by decide

example : fiveTasks.render =
    ("L\t5\nT\tall\t3\t131072\t500000\t150000\t17\t2,3\t2\n" ++
      "T\t0\t1\t131072\t1000000\t230000\t4\t1,4\t2\n" ++
      "T\t1,2\t2\t786432\t1500000\t410000\t24\t0,2\n" ++
      "T\t0,2,3\t2\t786432\t3000000\t300000\t39\t4,0\t2\n" ++
      "T\t0\t1\t32768\t5000000\t500000\t18\nG\t1\t131072\nG\t2\t65536\n").toList := by
  decide +kernel

theorem represents_fiveTasks :
    ∃ T, initTasks sampleAllocator sampleMachine (some fiveTasks.render)
      (Tester.start sampleOptions ()) = .ok T ∧ fiveTasks.Represents sampleMachine T := by
  have hlists : ∀ t ∈ fiveTasks.tasks, t.ListsFit := by
    unfold TaskSpec.ListsFit
    decide +kernel
  exact (represents_iff sampleOptions () fiveTasks.renders_render).mpr
    ⟨⟨by decide, hlists, by decide⟩, by decide +kernel, rfl⟩

/-- One task that uses four hundred locks, each of them listed. -/
def manyLocks : TasksetSpec 4 where
  numLocks := 400
  tasks := [⟨.all, 1, 0, 500000, 150000, 17, some (.listed 0 (List.range' 1 399), none)⟩]
  groups := []
  processors_le := by decide
  tasks_ne_nil := by decide
  inRange := by decide +kernel
  cpuSets_le := by decide +kernel
  groups_occur := by decide
  wss_range := by decide

theorem not_represents_manyLocks :
    manyLocks.Renders manyLocks.render ∧
      ¬∃ T, initTasks sampleAllocator sampleMachine (some manyLocks.render)
        (Tester.start sampleOptions ()) = .ok T ∧ manyLocks.Represents sampleMachine T := by
  refine ⟨manyLocks.renders_render, ?_⟩
  rintro ⟨T, hT, -⟩
  have hread := initTasks_of_renders (A := sampleAllocator) (m := sampleMachine) sampleOptions ()
    manyLocks.renders_render (by decide)
  obtain ⟨-, hok⟩ := hread
  obtain ⟨hlists, -⟩ := hok.mp ⟨T, hT⟩
  have hlong : ¬∀ t ∈ manyLocks.tasks, t.ListsFit := by
    unfold TaskSpec.ListsFit
    decide +kernel
  exact hlong hlists

end Chronos.Taskset
