import Chronos.Taskset.Lex

/-!
# Loading an entry

When the functions under `init_tasks` return, and what they leave. The answers of
`salloc` come in as one condition on the list of requests.
-/

namespace Chronos.Taskset

open Lib

variable {σ : Type} {A : Allocator σ} {m : Machine} {T T' : Tester σ} {t t' : Task}

/-! ## Requests -/

/-- The heap after a list of requests that are all served. -/
def Allocator.serve (A : Allocator σ) : σ → List Nat → Option σ
  | s, [] => some s
  | s, n :: ns =>
    match A.salloc s n with
    | some (s, true) => A.serve s ns
    | _ => none

theorem Allocator.serve_append (A : Allocator σ) (s : σ) (ns ns' : List Nat) :
    A.serve s (ns ++ ns') = (A.serve s ns).bind (A.serve · ns') := by
  induction ns generalizing s with
  | nil => rfl
  | cons n ns ih =>
    simp only [List.cons_append, serve]
    split
    · exact ih _
    · rfl

theorem Allocator.serve_singleton {A : Allocator σ} {s s' : σ} {n : Nat} :
    A.serve s [n] = some s' ↔ A.salloc s n = some (s', true) := by
  unfold serve
  split
  · next h => simp [serve, h]
  · next h =>
    constructor
    · intro h'
      cases h'
    · intro h'
      exact absurd h' (h _)

theorem allocate_eq_ok {onNull : Stop} {size : Nat} : allocate A onNull size T = .ok T' ↔
    ∃ heap, A.serve T.heap [size] = some heap ∧ T' = { T with heap } := by
  simp only [Allocator.serve_singleton]
  unfold allocate
  split
  · next h => simp [h]
  · next h => simp [h]
  · next h => simp [h, eq_comm]

/-! ## Lists of numbers -/

/-- The locks of a list, as the indices stored in `my_locks`. -/
def lockIds (numLocks : Int) (token : List Char) : List Int :=
  if saysAll token then (List.range numLocks.toNat).map Int.ofNat
  else (listDigits [] token).map atoi

/-- No number of the list overruns `tmp`, and the list does not overrun its buffer. -/
def ListReadable (token : List Char) : Prop :=
  token.length < tokenSize ∧
    (saysAll token ∨ ∀ digits ∈ listDigits [] token, digits.length + 1 < tmpSize)

instance (token : List Char) : Decidable (ListReadable token) :=
  inferInstanceAs (Decidable (_ ∧ _))

theorem foldlM_addLock_eq_ok {locks locks' : List Int} {numbers : List (List Char)} :
    numbers.foldlM addLock locks = .ok locks' ↔
      (∀ digits ∈ numbers, digits.length + 1 < tmpSize) ∧ locks' = locks ++ numbers.map atoi := by
  induction numbers generalizing locks with
  | nil =>
    rw [foldlM_nil_eq_ok]
    simp [eq_comm]
  | cons digits numbers ih =>
    rw [foldlM_cons_eq_ok]
    by_cases h : digits.length + 1 < tmpSize
    · simp [addLock, Nat.not_le.mpr h, ih, h]
    · simp [addLock, Nat.not_lt.mp h, h]

theorem initializeTaskLocks_eq_ok {token : List Char} (ht : t.myLocks = []) :
    initializeTaskLocks A token T t = .ok (T', t') ↔
      (saysAll token ∨ ∀ digits ∈ listDigits [] token, digits.length + 1 < tmpSize) ∧
        (∃ heap, A.serve T.heap [toULong (sizeofPointer * T.numLocks)] = some heap ∧
          T' = { T with heap }) ∧
        t' = { t with myLocks := lockIds T.numLocks token } := by
  unfold initializeTaskLocks lockIds
  simp only [bind_eq_ok, allocate_eq_ok]
  by_cases hall : saysAll token
  · simp only [hall, if_true, true_or, true_and]
    constructor
    · rintro ⟨_, ⟨heap, hheap, rfl⟩, h⟩
      cases h
      exact ⟨⟨heap, hheap, rfl⟩, rfl⟩
    · rintro ⟨⟨heap, hheap, rfl⟩, rfl⟩
      exact ⟨_, ⟨heap, hheap, rfl⟩, rfl⟩
  · simp only [hall, if_false, Bool.false_eq_true, false_or, bind_eq_ok, foldlM_addLock_eq_ok, ht,
      List.nil_append]
    constructor
    · rintro ⟨T₁, hT₁, _, ⟨hread, rfl⟩, h⟩
      cases h
      exact ⟨hread, hT₁, rfl⟩
    · rintro ⟨hread, hT₁, rfl⟩
      exact ⟨T', hT₁, _, ⟨hread, rfl⟩, rfl⟩

/-- **The locks of a task** are stored as they are read. -/
theorem initTaskLocks_eq_ok {w : Word (List Char)} (ht : t.myLocks = []) :
    initTaskLocks A w T t = .ok (T', t') ↔
      ListReadable w.value ∧
        (∃ heap, A.serve T.heap [toULong (sizeofPointer * T.numLocks)] = some heap ∧
          T' = { T with heap }) ∧
        t' = { t with myLocks := lockIds T.numLocks w.value } := by
  unfold initTaskLocks ListReadable
  by_cases hlen : w.value.length < tokenSize
  · rw [if_neg (Nat.not_le.mpr hlen), initializeTaskLocks_eq_ok ht]
    simp only [hlen, true_and]
  · simp [Nat.not_lt.mp hlen, hlen]

/-! ## Tasks -/

theorem newTask_eq_ok : newTask A T = .ok (T', t) ↔
    (∃ heap, A.serve T.heap [sizeofTask] = some heap ∧ T' = { T with heap }) ∧ t = freshTask := by
  unfold newTask
  simp only [bind_eq_ok, allocate_eq_ok]
  constructor
  · rintro ⟨T₁, hT₁, h⟩
    cases h
    exact ⟨hT₁, rfl⟩
  · rintro ⟨hT₁, rfl⟩
    exact ⟨T', hT₁, rfl⟩

theorem initializeTaskCpus_eq_ok {cpus : List Char} :
    initializeTaskCpus m cpus T t = .ok (T', t') ↔
      ∃ mask masks, cpuMask m cpus = .ok mask ∧ mask ≠ 0 ∧
        addDomainMask mask T.domainMasks = some masks ∧ T' = { T with domainMasks := masks } ∧
          t' = { t with cpuMask := mask } := by
  unfold initializeTaskCpus
  simp only [bind_eq_ok]
  constructor
  · rintro ⟨mask, hmask, h⟩
    split at h
    · cases h
    · next hne =>
      split at h
      · next masks hmasks =>
        cases h
        exact ⟨mask, masks, hmask, hne, hmasks, rfl, rfl⟩
      · cases h
  · rintro ⟨mask, masks, hmask, hne, hmasks, rfl, rfl⟩
    refine ⟨mask, hmask, ?_⟩
    rw [if_neg hne, hmasks]
    rfl

theorem initTaskFields_eq_ok {w : TaskFields} : initTaskFields m w T t = .ok (T', t') ↔
    w.cpus.value.length < tokenSize ∧
      ∃ mask masks, cpuMask m w.cpus.value = .ok mask ∧ mask ≠ 0 ∧
        addDomainMask mask T.domainMasks = some masks ∧ T' = { T with domainMasks := masks } ∧
          t' = { (setFields m w t).setPeriodTs with cpuMask := mask } := by
  unfold initTaskFields
  by_cases hlen : w.cpus.value.length < tokenSize
  · rw [if_neg (Nat.not_le.mpr hlen), initializeTaskCpus_eq_ok]
    simp only [hlen, true_and]
  · simp [Nat.not_lt.mp hlen, hlen]

/-- The task made of its words, before its group leader is known. -/
def taskOf (m : Machine) (numLocks : Int) (w : TaskFields) (mask : Nat) :
    Option (Word (List Char) × Option (Word Int)) → Task
  | none => { (setFields m w freshTask).setPeriodTs with cpuMask := mask }
  | some (locks, hua) =>
    setHua { (setFields m w freshTask).setPeriodTs with
      cpuMask := mask, myLocks := lockIds numLocks locks.value } hua

/-- The optional fields set nothing but the locks and the HUA utility. -/
theorem taskOf_field {β : Type} (field : Task → β)
    (hfield : ∀ t locks hua, field { t with myLocks := locks, huaUtility := hua } = field t)
    (numLocks : Int) (w : TaskFields) (mask : Nat)
    (optional : Option (Word (List Char) × Option (Word Int))) :
    field (taskOf m numLocks w mask optional) =
      field { (setFields m w freshTask).setPeriodTs with cpuMask := mask } := by
  have hset := hfield { (setFields m w freshTask).setPeriodTs with cpuMask := mask }
  obtain - | ⟨locks, - | hua⟩ := optional
  · rfl
  · exact hset (lockIds numLocks locks.value) 0
  · exact hset (lockIds numLocks locks.value) (toUInt hua.value)

/-- `init_group_leader` sets nothing but the leader. -/
theorem initGroupLeader_field {β : Type} (field : Task → β)
    (hfield : ∀ t leader, field { t with groupLeader := leader } = field t) (ts : List Task)
    (t : Task) : field (initGroupLeader ts t) = field t := by
  unfold initGroupLeader
  split
  · exact hfield t _
  · exact hfield t _

/-- The requests for a task. -/
def taskRequests (numLocks : Int) : Option (Word (List Char) × Option (Word Int)) → List Nat
  | none => [sizeofTask]
  | some _ => [sizeofTask, toULong (sizeofPointer * numLocks)]

/-- **A task is loaded** when its lists can be read, its processors make a mask
that has a place among the domains, and its requests are served. -/
theorem loadTask_eq_ok {w : TaskFields} {optional : Option (Word (List Char) × Option (Word Int))} :
    loadTask A m w optional T = .ok T' ↔
      w.cpus.value.length < tokenSize ∧ (∀ p ∈ optional, ListReadable p.1.value) ∧
        ∃ mask masks heap, cpuMask m w.cpus.value = .ok mask ∧ mask ≠ 0 ∧
          addDomainMask mask T.domainMasks = some masks ∧
          A.serve T.heap (taskRequests T.numLocks optional) = some heap ∧
          T' = addTask { T with domainMasks := masks, heap } (taskOf m T.numLocks w mask optional) := by
  unfold loadTask
  simp only [bind_eq_ok, Prod.exists, newTask_eq_ok, initTaskFields_eq_ok]
  cases optional with
  | none =>
    simp only [loadOptional, taskRequests, taskOf]
    constructor
    · rintro ⟨_, _, ⟨⟨heap, hheap, rfl⟩, rfl⟩, _, _, ⟨hlen, mask, masks, hmask, hne, hmasks, rfl, rfl⟩, h⟩
      cases h
      exact ⟨hlen, by simp, mask, masks, heap, hmask, hne, hmasks, hheap, rfl⟩
    · rintro ⟨hlen, -, mask, masks, heap, hmask, hne, hmasks, hheap, rfl⟩
      exact ⟨_, _, ⟨⟨heap, hheap, rfl⟩, rfl⟩, _, _, ⟨hlen, mask, masks, hmask, hne, hmasks, rfl, rfl⟩,
        rfl⟩
  | some p =>
    obtain ⟨locks, hua⟩ := p
    simp only [loadOptional, taskRequests, taskOf, bind_eq_ok, Prod.exists]
    constructor
    · rintro ⟨_, _, ⟨⟨heap, hheap, rfl⟩, rfl⟩, _, _, ⟨hlen, mask, masks, hmask, hne, hmasks, rfl, rfl⟩, T₃, t₃,
        hlocks, h⟩
      rw [initTaskLocks_eq_ok rfl] at hlocks
      obtain ⟨hread, ⟨heap', hheap', rfl⟩, rfl⟩ := hlocks
      cases h
      refine ⟨hlen, by simpa using hread, mask, masks, heap', hmask, hne, hmasks, ?_, rfl⟩
      rw [← List.singleton_append, Allocator.serve_append, hheap]
      exact hheap'
    · rintro ⟨hlen, hread, mask, masks, heap', hmask, hne, hmasks, hheap', rfl⟩
      rw [← List.singleton_append, Allocator.serve_append, Option.bind_eq_some_iff] at hheap'
      obtain ⟨heap, hheap, hheap'⟩ := hheap'
      refine ⟨_, _, ⟨⟨heap, hheap, rfl⟩, rfl⟩, _, _, ⟨hlen, mask, masks, hmask, hne, hmasks, rfl, rfl⟩, _, _,
        (initTaskLocks_eq_ok rfl).mpr ⟨by simpa using hread, ⟨heap', hheap', rfl⟩, rfl⟩, rfl⟩

/-! ## The other entries, the start and the end -/

/-- The tester once the locks are initialised. -/
def withLocks (n : Int) (T : Tester σ) (heap : σ) : Tester σ :=
  { T with
    numLocks := n
    heap
    options := (Chronos.initializeTestLocks n T.options).2
    warnings := T.warnings ++ (Chronos.initializeTestLocks n T.options).1 }

theorem initializeTestLocks_eq_ok {n : Int} :
    initializeTestLocks A { T with numLocks := n } = .ok T' ↔
      ∃ heap, A.serve T.heap [toULong (sizeofChronosMutexT * n)] = some heap ∧
        T' = withLocks n T heap := by
  unfold initializeTestLocks
  simp only [bind_eq_ok, allocate_eq_ok]
  constructor
  · rintro ⟨_, ⟨heap, hheap, rfl⟩, h⟩
    cases h
    exact ⟨heap, hheap, rfl⟩
  · rintro ⟨heap, hheap, rfl⟩
    exact ⟨_, ⟨heap, hheap, rfl⟩, rfl⟩

/-- No heap serves the request for a negative number of locks. -/
theorem not_serve_of_neg {s s' : σ} {n : Int} (hn : n < 0) (hlow : -2 ^ 31 ≤ n) :
    A.serve s [toULong (sizeofChronosMutexT * n)] ≠ some s' := by
  rw [Ne, Allocator.serve_singleton]
  apply A.refuses
  · unfold toULong sizeofChronosMutexT
    omega
  · unfold toULong sizeofChronosMutexT
    omega

theorem le_toInt (x : Int) : -2 ^ 31 ≤ toInt x := by
  have := Int.le_bmod (x := x) (m := 2 ^ 32) (by norm_num)
  unfold toInt
  omega

theorem toInt_lt (x : Int) : toInt x < 2 ^ 31 := by
  have := Int.bmod_lt (x := x) (m := 2 ^ 32) (by norm_num)
  unfold toInt
  omega

/-- **A lock line is loaded** when it is the first one and its request is served;
then the number is not negative. -/
theorem loadItem_locks_eq_ok {w : Word Int} : loadItem A m T (.locks w) = .ok T' ↔
    T.numLocks = -1 ∧ 0 ≤ toInt w.value ∧
      ∃ heap, A.serve T.heap [toULong (sizeofChronosMutexT * toInt w.value)] = some heap ∧
        T' = withLocks (toInt w.value) T heap := by
  unfold loadItem
  by_cases hn : T.numLocks = -1
  · simp only [hn, if_true, true_and, initializeTestLocks_eq_ok]
    constructor
    · rintro ⟨heap, hheap, rfl⟩
      have hpos : 0 ≤ toInt w.value := by
        by_contra hneg
        exact not_serve_of_neg (by omega) (le_toInt w.value) hheap
      exact ⟨hpos, heap, hheap, rfl⟩
    · rintro ⟨-, heap, hheap, rfl⟩
      exact ⟨heap, hheap, rfl⟩
  · simp [hn]

theorem loadItem_task_eq_ok {w : TaskFields}
    {optional : Option (Word (List Char) × Option (Word Int))} :
    loadItem A m T (.task w optional) = .ok T' ↔
      0 ≤ T.numLocks ∧ T.seenGroup = false ∧ loadTask A m w optional T = .ok T' := by
  unfold loadItem
  by_cases hn : T.numLocks < 0
  · simp [hn]
  · cases hg : T.seenGroup
    · simp [hn, not_lt.mp hn]
    · simp [hn]

theorem loadItem_group_eq_ok {g w : Word Int} : loadItem A m T (.group g w) = .ok T' ↔
    ∃ taskList, setGroupWss (toUInt g.value) (groupWss m w) T.taskList = some taskList ∧
      T' = { T with taskList, seenGroup := true } := by
  unfold loadItem initGroupFields
  dsimp only
  cases setGroupWss (toUInt g.value) (groupWss m w) T.taskList with
  | none => simp
  | some taskList => simp [eq_comm]

theorem beginTasks_eq_ok : beginTasks A m T = .ok T' ↔
    ∃ heap, A.serve T.heap [sizeofLong * m.numProcessors] = some heap ∧
      T' = { T with heap, domainMasks := List.replicate m.numProcessors 0, seenGroup := false } := by
  unfold beginTasks
  simp only [bind_eq_ok, allocate_eq_ok]
  constructor
  · rintro ⟨_, ⟨heap, hheap, rfl⟩, h⟩
    cases h
    exact ⟨heap, hheap, rfl⟩
  · rintro ⟨heap, hheap, rfl⟩
    exact ⟨_, ⟨heap, hheap, rfl⟩, rfl⟩

theorem finishTasks_eq_ok : finishTasks A m T = .ok T' ↔
    0 ≤ T.numLocks ∧ T.taskList ≠ [] ∧ m.initAborts = 0 ∧
      ∃ heap, A.serve T.heap [sizeofPointer * T.taskList.length] = some heap ∧
        T' = { T with heap } := by
  unfold finishTasks
  by_cases hn : T.numLocks < 0
  · simp [hn]
  · by_cases ht : T.taskList = []
    · simp [hn, ht]
    · rw [if_neg hn, if_neg ht]
      simp only [bind_eq_ok, allocate_eq_ok, not_lt.mp hn, ht, ne_eq, not_false_eq_true, true_and]
      constructor
      · rintro ⟨_, ⟨heap, hheap, rfl⟩, h⟩
        split at h
        · cases h
        · next ha =>
          cases h
          exact ⟨not_not.mp ha, heap, hheap, rfl⟩
      · rintro ⟨ha, heap, hheap, rfl⟩
        refine ⟨_, ⟨heap, hheap, rfl⟩, ?_⟩
        rw [if_neg (not_not.mpr ha)]
        rfl

/-! ## Groups -/

/-- A group line changes nothing but the size of a group. -/
theorem map_setGroupWss {β : Type} (field : Task → β)
    (hfield : ∀ t wss, field { t with groupWss := wss } = field t) {g : Nat} {wss : Int}
    {ts ts' : List Task} (h : setGroupWss g wss ts = some ts') :
    ts'.map field = ts.map field := by
  induction ts generalizing ts' with
  | nil => cases h
  | cons t ts ih =>
    unfold setGroupWss at h
    split at h
    · cases h
      simp [hfield]
    · obtain ⟨us, hus, rfl⟩ := Option.map_eq_some_iff.mp h
      simp [ih hus]

/-- **What an entry does to the tasks**: a task line puts a task in front, whose mask is
among the domains, and any other entry changes sizes of groups at most. -/
theorem loadItem_cases {item : Item} (hload : loadItem A m T item = .ok T') :
    (∃ w optional mask, item = .task w optional ∧ cpuMask m w.cpus.value = .ok mask ∧ mask ≠ 0 ∧
      addDomainMask mask T.domainMasks = some T'.domainMasks ∧
      T'.taskList =
        initGroupLeader T.taskList (taskOf m T.numLocks w mask optional) :: T.taskList) ∨
    ((∀ w optional, item ≠ .task w optional) ∧ T'.domainMasks = T.domainMasks ∧
      ∀ {β : Type} (field : Task → β), (∀ t wss, field { t with groupWss := wss } = field t) →
        T'.taskList.map field = T.taskList.map field) := by
  cases item with
  | comment =>
    cases hload
    exact .inr ⟨nofun, rfl, fun _ _ => rfl⟩
  | locks w =>
    obtain ⟨-, -, heap, -, rfl⟩ := loadItem_locks_eq_ok.mp hload
    exact .inr ⟨nofun, rfl, fun _ _ => rfl⟩
  | task w optional =>
    obtain ⟨-, -, htask⟩ := loadItem_task_eq_ok.mp hload
    obtain ⟨-, -, mask, masks, heap, hmask, hne, hmasks, -, rfl⟩ := loadTask_eq_ok.mp htask
    exact .inl ⟨w, optional, mask, rfl, hmask, hne, hmasks, rfl⟩
  | group g w =>
    obtain ⟨taskList, hset, rfl⟩ := loadItem_group_eq_ok.mp hload
    exact .inr ⟨nofun, rfl, fun field hfield => map_setGroupWss field hfield hset⟩

/-! ## The whole file -/

/-- The tester before the first entry. -/
def begun (m : Machine) (options : Options) (heap : σ) : Tester σ :=
  { Tester.start options heap with domainMasks := List.replicate m.numProcessors 0 }

/-- **The invariant rule** for `init_tasks`: what holds before the first entry, and
is kept by every entry that loads, holds when the file has been read. -/
theorem initTasks_invariant (P : List Item → Tester σ → Prop) {options : Options} {heap : σ}
    {f : List Char} (h : initTasks A m (some f) (Tester.start options heap) = .ok T)
    (hstart : ∀ heap, P [] (begun m options heap))
    (hstep : ∀ items item T T', P items T → loadItem A m T item = .ok T' →
      P (items ++ [item]) T') :
    ∃ items T₀ heap, lex f = some items ∧ P items T₀ ∧ 0 ≤ T₀.numLocks ∧ T₀.taskList ≠ [] ∧
      T = { T₀ with heap } := by
  obtain ⟨items, hlex, T₁, hbegin, T₂, hfold, hfinish⟩ := initTasks_eq_ok.mp h
  obtain ⟨heap₁, -, rfl⟩ := beginTasks_eq_ok.mp hbegin
  obtain ⟨hnum, hne, -, heap₃, -, rfl⟩ := finishTasks_eq_ok.mp hfinish
  exact ⟨items, T₂, heap₃, hlex, foldlM_invariant P (hstart heap₁) hstep hfold, hnum, hne, rfl⟩

end Chronos.Taskset
