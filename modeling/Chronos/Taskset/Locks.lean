import Chronos.Taskset.Load

/-!
# The locks of an accepted file

`initialize_task_locks` stores the address of whatever lock a list names, and as
many as it names, in an array with room for `num_locks`. Whether the locks of the
tasks exist is therefore up to the lists in the file.
-/

namespace Chronos.Taskset

open Lib

/-- A task has no more locks than its `my_locks` was allocated for, and each of
them is an element of `tester.locks`. -/
def LocksExistFor (numLocks : Int) (t : Task) : Prop :=
  t.numMyLocks ≤ numLocks ∧ ∀ l ∈ t.myLocks, 0 ≤ l ∧ l < numLocks

def LocksExist {σ : Type} (T : Tester σ) : Prop := ∀ t ∈ T.taskList, LocksExistFor T.numLocks t

instance (numLocks : Int) (t : Task) : Decidable (LocksExistFor numLocks t) :=
  inferInstanceAs (Decidable (_ ∧ _))

instance {σ : Type} (T : Tester σ) : Decidable (LocksExist T) :=
  inferInstanceAs (Decidable (∀ t ∈ T.taskList, _))

namespace Item

/-- The list of locks of an entry, as it stands in the file. -/
def lockList : Item → Option (List Char)
  | .task _ (some (w, _)) => some w.value
  | _ => none

/-- The number of locks an entry declares. -/
def declared : Item → Option Int
  | .locks w => some (toInt w.value)
  | _ => none

end Item

/-- The number on the `L` line. -/
def lockCount (items : List Item) : Int :=
  items.foldl (fun n item => item.declared.getD n) (-1)

/-- The list says `all`, or it has at most `n` numbers and all are below `n`. -/
def ListFits (n : Int) (token : List Char) : Prop :=
  saysAll token ∨ ((listDigits [] token).length ≤ n ∧
    ∀ digits ∈ listDigits [] token, 0 ≤ atoi digits ∧ atoi digits < n)

instance (n : Int) (token : List Char) : Decidable (ListFits n token) :=
  inferInstanceAs (Decidable (_ ∨ _))

theorem lockIds_exist_iff {n : Int} (hn : 0 ≤ n) (token : List Char) :
    ((lockIds n token).length ≤ n ∧ ∀ l ∈ lockIds n token, 0 ≤ l ∧ l < n) ↔ ListFits n token := by
  unfold lockIds ListFits
  by_cases hall : saysAll token
  · simp only [hall, if_true, true_or, iff_true, List.length_map, List.length_range,
      List.forall_mem_map, List.mem_range]
    refine ⟨by omega, fun i hi => ⟨Int.natCast_nonneg i, ?_⟩⟩
    have hcast : Int.ofNat i = (i : Int) := rfl
    omega
  · simp [hall]

section

variable {σ : Type} {A : Allocator σ} {m : Machine} {T T' : Tester σ} {t : Task}

/-- The property only looks at the locks. -/
theorem locksExist_iff_map : LocksExist T ↔
    ∀ locks ∈ T.taskList.map Task.myLocks,
      locks.length ≤ T.numLocks ∧ ∀ l ∈ locks, 0 ≤ l ∧ l < T.numLocks := by
  simp only [LocksExist, LocksExistFor, Task.numMyLocks, List.forall_mem_map]

/-- What holds after any number of entries: before the `L` line there is neither a
task nor a list, and after it the tasks' locks exist as far as the lists go. -/
structure LocksInv (items : List Item) (T : Tester σ) : Prop where
  count : T.numLocks = lockCount items
  before : T.numLocks < 0 → T.taskList = [] ∧ ∀ item ∈ items, item.lockList = none
  exist : LocksExist T ↔ ∀ item ∈ items, ∀ token ∈ item.lockList, ListFits T.numLocks token

theorem lockCount_append (items : List Item) (item : Item) :
    lockCount (items ++ [item]) = item.declared.getD (lockCount items) := by
  simp [lockCount]

theorem lockCount_lt (items : List Item) : lockCount items < 2 ^ 31 := by
  induction items using List.reverseRecOn with
  | nil => decide
  | append_singleton items item ih =>
    rw [lockCount_append]
    cases item with
    | locks w => exact toInt_lt w.value
    | comment => exact ih
    | task w optional => exact ih
    | group g w => exact ih

theorem locksInv_begun (options : Options) (heap : σ) : LocksInv [] (begun m options heap) where
  count := rfl
  before _ := ⟨rfl, nofun⟩
  exist := by simp [LocksExist, begun, Tester.start]

/-- An entry that is neither the `L` line nor a task leaves the locks alone. -/
theorem LocksInv.other {items : List Item} {item : Item} (h : LocksInv items T)
    (hdecl : item.declared = none) (hlist : item.lockList = none) (hnum : T'.numLocks = T.numLocks)
    (hmap : T'.taskList.map Task.myLocks = T.taskList.map Task.myLocks) :
    LocksInv (items ++ [item]) T' where
  count := by rw [hnum, h.count, lockCount_append, hdecl, Option.getD_none]
  before := by
    intro hneg
    obtain ⟨hnil, hlists⟩ := h.before (hnum ▸ hneg)
    refine ⟨?_, ?_⟩
    · rw [hnil] at hmap
      exact List.map_eq_nil_iff.mp hmap
    · simpa [or_imp, forall_and, hlist] using hlists
  exist := by
    rw [locksExist_iff_map, hmap, hnum, ← locksExist_iff_map, h.exist]
    simp [or_imp, forall_and, hlist]

theorem LocksInv.locks {items : List Item} {w : Word Int} (h : LocksInv items T)
    (hload : loadItem A m T (.locks w) = .ok T') : LocksInv (items ++ [.locks w]) T' := by
  obtain ⟨hnum, hpos, heap, -, rfl⟩ := loadItem_locks_eq_ok.mp hload
  obtain ⟨hnil, hlists⟩ := h.before (by omega)
  refine ⟨?_, fun hneg => ?_, ?_⟩
  · rw [lockCount_append]
    rfl
  · exact absurd hneg (not_lt.mpr hpos)
  · have hnil' : (withLocks (toInt w.value) T heap).taskList = [] := hnil
    simp only [LocksExist, hnil', List.mem_append, List.mem_singleton]
    constructor
    · rintro - item (hitem | rfl) token htoken
      · rw [hlists item hitem] at htoken
        cases htoken
      · cases htoken
    · intro _ t ht
      cases ht

theorem LocksInv.task {items : List Item} {w : TaskFields}
    {optional : Option (Word (List Char) × Option (Word Int))} (h : LocksInv items T)
    (hload : loadItem A m T (.task w optional) = .ok T') :
    LocksInv (items ++ [.task w optional]) T' := by
  obtain ⟨hpos, -, htask⟩ := loadItem_task_eq_ok.mp hload
  obtain ⟨-, -, mask, masks, heap, -, -, -, -, rfl⟩ := loadTask_eq_ok.mp htask
  refine ⟨?_, fun hneg => absurd hneg (not_lt.mpr hpos), ?_⟩
  · rw [lockCount_append, ← h.count]
    rfl
  · have hnew : LocksExistFor T.numLocks
        (initGroupLeader T.taskList (taskOf m T.numLocks w mask optional)) ↔
        ∀ token ∈ (Item.task w optional).lockList, ListFits T.numLocks token := by
      unfold LocksExistFor Task.numMyLocks
      rw [initGroupLeader_field Task.myLocks (fun _ _ => rfl)]
      cases optional with
      | none => simp [taskOf, Task.setPeriodTs, setFields, freshTask, Item.lockList, hpos]
      | some p =>
        have hlocks : (taskOf m T.numLocks w mask (some p)).myLocks =
            lockIds T.numLocks p.1.value := by
          obtain ⟨locks, hua⟩ := p
          cases hua <;> rfl
        rw [hlocks, lockIds_exist_iff hpos]
        simp [Item.lockList]
    have hold := h.exist
    unfold LocksExist at hold ⊢
    simp only [addTask, List.forall_mem_cons, hnew, hold, List.mem_append, List.mem_singleton]
    constructor
    · rintro ⟨hlast, hitems⟩ item (hitem | rfl)
      · exact hitems item hitem
      · exact hlast
    · intro hall
      exact ⟨hall _ (.inr rfl), fun item hitem => hall item (.inl hitem)⟩

theorem LocksInv.loadItem {items : List Item} {item : Item} (h : LocksInv items T)
    (hload : loadItem A m T item = .ok T') : LocksInv (items ++ [item]) T' := by
  cases item with
  | comment =>
    cases hload
    exact h.other rfl rfl rfl rfl
  | locks w => exact h.locks hload
  | task w optional => exact h.task hload
  | group g w =>
    obtain ⟨taskList, hset, rfl⟩ := loadItem_group_eq_ok.mp hload
    exact h.other rfl rfl rfl (map_setGroupWss Task.myLocks (fun _ _ => rfl) hset)

/-- **The locks of an accepted file exist** exactly when every list of locks in it
says `all` or fits the number on the `L` line. -/
theorem locksExist_iff {options : Options} {heap : σ} {f : List Char}
    (h : initTasks A m (some f) (Tester.start options heap) = .ok T) :
    LocksExist T ↔ ∃ items ∈ lex f, ∀ item ∈ items, ∀ token ∈ item.lockList,
      ListFits (lockCount items) token := by
  obtain ⟨items, T₀, heap, hlex, hinv, -, -, rfl⟩ := initTasks_invariant LocksInv h
    (locksInv_begun options) fun _ _ _ _ hP hload => hP.loadItem hload
  simp only [hlex, Option.mem_some_iff, exists_eq_left']
  rw [← hinv.count]
  exact hinv.exist

end

/-! ## A list that names a lock there is not -/

/-- A heap with blocks of less than a gigabyte. -/
def sampleAllocator : Allocator Unit where
  salloc _ n := some ((), decide (n < 2 ^ 30))
  refuses _ n _ hn _ h := by
    simp only [Option.some.injEq, Prod.mk.injEq, true_and, decide_eq_true_eq] at h
    omega

/-- Four processors and the workload `burn_loop`. -/
def sampleMachine : Machine where
  numProcessors := 4
  workload := ⟨0, 0, 0, 0, 0⟩
  outOfRange _ := 0
  initAborts := 0

/-- Options with locking enabled. -/
def sampleOptions : Options where
  cpuUsage := 100
  runTime := 1
  scheduler := 1
  tasksetFilename := some "tasksets/5t_l"
  workload := 0
  enableHua := false
  locking := LOCKING
  csLength := 10
  batchMode := false
  endUsage := 100
  interval := 1

/-- One lock, and a task that uses lock 5. -/
def missingLock : List Char := "L 1\nT 0 1 0 500000 150000 17 5\n".toList

/-- What reading it leaves. -/
def missingLockTester : Tester Unit where
  options := sampleOptions
  heap := ()
  domainMasks := [1, 0, 0, 0]
  numLocks := 1
  taskList := [{ freshTask with
    cpuMask := 1
    threadGroup := 1
    myLocks := [5]
    period := 500000
    periodTs := ⟨0, 500000000⟩
    execTime := 150000
    utility := 17
    taskWss := 0 }]
  seenGroup := false
  warnings := []

theorem initTasks_missingLock : initTasks sampleAllocator sampleMachine (some missingLock)
    (Tester.start sampleOptions ()) = .ok missingLockTester := by
  decide +kernel

/-- One lock, and a task that uses it. -/
def oneLock : List Char := "L 1\nT 0 1 0 500000 150000 17 0\n".toList

/-- What reading it leaves. -/
def oneLockTester : Tester Unit :=
  { missingLockTester with
    taskList := missingLockTester.taskList.map fun t => { t with myLocks := [0] } }

theorem initTasks_oneLock : initTasks sampleAllocator sampleMachine (some oneLock)
    (Tester.start sampleOptions ()) = .ok oneLockTester := by
  decide +kernel

/-- The list `0` fits one lock, the list `5` does not. -/
theorem locksExist_iff_missingLock :
    (LocksExist oneLockTester ∧ ∃ items ∈ lex oneLock, ∀ item ∈ items,
      ∀ token ∈ item.lockList, ListFits (lockCount items) token) ∧
    ¬LocksExist missingLockTester ∧ ¬∃ items ∈ lex missingLock, ∀ item ∈ items,
      ∀ token ∈ item.lockList, ListFits (lockCount items) token := by
  have hone : LocksExist oneLockTester := by decide
  have hmissing : ¬LocksExist missingLockTester := by decide
  exact ⟨⟨hone, (locksExist_iff initTasks_oneLock).mp hone⟩, hmissing,
    mt (locksExist_iff initTasks_missingLock).mpr hmissing⟩

theorem not_locksExist_missingLock :
    initTasks sampleAllocator sampleMachine (some missingLock)
      (Tester.start sampleOptions ()) = .ok missingLockTester ∧ ¬LocksExist missingLockTester :=
  ⟨initTasks_missingLock, by decide⟩

end Chronos.Taskset
