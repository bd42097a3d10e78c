import Chronos.Task.Accesses
import Chronos.Taskset.Accepted

/-!
# What a task keeps of the memory it is put in

`salloc` does not clear what it returns, and `new_task` does not set every field. Here a task
is the whole of its block, so that it starts with what was there before: `num_my_locks` for
one, which `initialize_task_locks` counts on from.
-/

namespace Chronos.Taskset

open Lib Lib.FieldAccess TaskField

/-- A block as a `struct task`: `task` is the part that `Task` names, except for the locks.
`lockStores` are the stores to `my_locks`, by their index; an address is a number, and another
task is the number of tasks created before it. -/
structure TaskBlock where
  tester : Nat
  thread : Nat
  abortPointer : Nat
  workloadData : Nat
  workloadTgData : Nat
  cachedSlope : Nat
  next : Option Nat
  taskId : Int
  threadId : Int
  numMyLocks : BitVec 32
  hasLocks : Bool
  lockStores : List (BitVec 32 × Int)
  localStartTime : Timespec
  task : Task
  deriving DecidableEq

/-- What `init_task` leaves: the task is the first of the list then. -/
structure Parsed (σ : Type) where
  tester : Tester σ
  block : TaskBlock
  rest : List Char
  deriving DecidableEq

section Reading

variable {σ : Type} (A : Allocator σ) (m : Machine)

/-- The fields that `new_task` sets. -/
def newTaskIn (tester : Nat) (old : TaskBlock) : TaskBlock :=
  { old with
    tester
    next := none
    taskId := 0
    threadId := 0
    hasLocks := false
    lockStores := []
    task := { freshTask with
      periodTs := old.task.periodTs
      lockedUsage := old.task.lockedUsage
      unlockedUsage := old.task.unlockedUsage
      maxReleases := old.task.maxReleases
      extraRelease := old.task.extraRelease } }

/-- One number of the list of locks, stored at `num_my_locks`, which wraps. -/
def storeLock (b : TaskBlock) (digits : List Char) : Except Stop TaskBlock :=
  if tmpSize ≤ digits.length + 1 then .error .undefined
  else .ok { b with
    lockStores := b.lockStores ++ [(b.numMyLocks, atoi digits)]
    numMyLocks := b.numMyLocks + 1 }

def initializeTaskLocksIn (locks : List Char) (T : Tester σ) (b : TaskBlock) :
    Except Stop (Tester σ × TaskBlock) := do
  let T ← allocate A (.fatal "Failed to allocate memory.")
    (toULong (sizeofPointer * T.numLocks)) T
  if saysAll locks then
    return (T, { b with
      hasLocks := true
      numMyLocks := .ofInt 32 T.numLocks
      lockStores := (List.range T.numLocks.toNat).map fun i => (.ofNat 32 i, Int.ofNat i) })
  else
    let b ← (listDigits [] locks).foldlM storeLock { b with hasLocks := true }
    return (T, b)

def initTaskLocksIn (w : Word (List Char)) (T : Tester σ) (b : TaskBlock) :
    Except Stop (Tester σ × TaskBlock) :=
  if tokenSize ≤ w.value.length then .error .undefined
  else initializeTaskLocksIn A w.value T b

/-- The end of `init_task`. -/
def addTaskIn (T : Tester σ) (b : TaskBlock) (rest : List Char) : Parsed σ :=
  ⟨T, { b with
    next := if T.taskList = [] then none else some (T.taskList.length - 1)
    task := initGroupLeader T.taskList b.task }, rest⟩

def readHuaIn (f : List Char) (T : Tester σ) (b : TaskBlock) : Except Stop (Parsed σ) :=
  match skipSpace f with
  | [] => .ok (addTaskIn T b [])
  | c :: f =>
    if !c.isDigit then .ok (addTaskIn T b (c :: f))
    else match scanLong (c :: f) with
      | none => .error (.fatal "Ill-formed taskset file: improper task HUA format.")
      | some w => .ok (addTaskIn T
          { b with task := { b.task with huaUtility := toUInt w.value } } (skipSpace w.rest))

def readOptionalIn (f : List Char) (T : Tester σ) (b : TaskBlock) : Except Stop (Parsed σ) :=
  match skipSpace f with
  | [] => .ok (addTaskIn T b [])
  | c :: f =>
    if endsTask c then .ok (addTaskIn T b (c :: f))
    else match scanString (c :: f) with
      | none => .error (.fatal "Ill-formed taskset file: improper task lock list format.")
      | some w => do
        let (T, b) ← initTaskLocksIn A w T b
        readHuaIn w.rest T b

/-- `init_task`, where `salloc` returns a block that holds `old`. -/
def initTaskIn (tester : Nat) (old : TaskBlock) (f : List Char) (T : Tester σ) :
    Except Stop (Parsed σ) := do
  let T ← allocate A (.exit "Error allocating memory. Exiting.") sizeofTask T
  let b := newTaskIn tester old
  match scanTaskFields f with
  | none => .error (.fatal ("Ill-formed taskset file: " ++
      "missing one or more required fields for task " ++
      "(number of allowed cpus, thread group, task WSS, period in us, execution time in us, " ++
      "and task utility)."))
  | some w => do
    let (T, t) ← initTaskFields m w T b.task
    readOptionalIn A w.utility.rest T { b with task := t }

end Reading

/-! ## Cleared memory -/

/-- A block of zeros. -/
def TaskBlock.zero : TaskBlock where
  tester := 0
  thread := 0
  abortPointer := 0
  workloadData := 0
  workloadTgData := 0
  cachedSlope := 0
  next := none
  taskId := 0
  threadId := 0
  numMyLocks := 0
  hasLocks := false
  lockStores := []
  localStartTime := ⟨0, 0⟩
  task := { freshTask with taskWss := 0, groupWss := 0 }

/-- The task with the locks that its block has been given. -/
def TaskBlock.toTask (b : TaskBlock) : Task := { b.task with myLocks := b.lockStores.map Prod.snd }

section Zero

variable {σ : Type} {A : Allocator σ} {m : Machine} {T : Tester σ} {b : TaskBlock}
  {f : List Char}

theorem foldlM_storeLock_toTask (numbers : List (List Char)) :
    TaskBlock.toTask <$> numbers.foldlM storeLock b =
      (fun locks => { b.task with myLocks := locks }) <$>
        numbers.foldlM addLock b.toTask.myLocks := by
  induction numbers generalizing b with
  | nil => rfl
  | cons digits numbers ih =>
    rw [List.foldlM_cons, List.foldlM_cons, map_bind, map_bind]
    unfold storeLock addLock
    split
    · rfl
    · refine (ih (b := _)).trans ?_
      simp only [TaskBlock.toTask, List.map_append, List.map_singleton]
      rfl

/-- The list of locks, in a block that has none yet. -/
theorem initTaskLocksIn_toTask (w : Word (List Char)) (hstores : b.lockStores = []) :
    (fun (T, b) => (T, b.toTask)) <$> initTaskLocksIn A w T b =
      initTaskLocks A w T { b.task with myLocks := [] } := by
  unfold initTaskLocksIn initTaskLocks initializeTaskLocksIn initializeTaskLocks
  split
  · rfl
  · rw [map_bind]
    congr 1
    funext T
    split
    · simp [Functor.map, Except.map, pure, Except.pure, TaskBlock.toTask]
    · have hfold := foldlM_storeLock_toTask (b := { b with hasLocks := true })
        (listDigits [] w.value)
      have hnone : { b with hasLocks := true }.toTask.myLocks = [] := by
        simp [TaskBlock.toTask, hstores]
      have hpair := congrArg (fun x => (fun t : Task => (T, t)) <$> x) hfold
      simp only [Functor.map_map, hnone] at hpair
      rw [map_bind]
      exact (bind_pure_comp _ _).trans (hpair.trans (bind_pure_comp _ _).symm)

theorem initGroupLeader_myLocks (ts : List Task) (t : Task) (locks : List Int) :
    initGroupLeader ts { t with myLocks := locks } =
      { initGroupLeader ts t with myLocks := locks } := by
  unfold initGroupLeader
  cases ts.find? (·.threadGroup = t.threadGroup) <;> rfl

/-- The leader has been found already. -/
theorem addTask_addTaskIn (rest : List Char) :
    addTask T (addTaskIn T b rest).block.toTask = addTask T b.toTask := by
  unfold addTask addTaskIn TaskBlock.toTask
  congr 2
  rw [initGroupLeader_myLocks, initGroupLeader_myLocks]
  unfold initGroupLeader
  cases h : T.taskList.find? (·.threadGroup = b.task.threadGroup) <;> simp [h]

/-- What is left when the block is forgotten. -/
def Parsed.forget (p : Parsed σ) : Tester σ × List Char := (addTask p.tester p.block.toTask, p.rest)

theorem forget_addTaskIn (rest : List Char) :
    (addTaskIn T b rest).forget = (addTask T b.toTask, rest) := by
  unfold Parsed.forget
  rw [show (addTaskIn T b rest).tester = T from rfl, addTask_addTaskIn]
  rfl

theorem readHuaIn_forget (f : List Char) :
    Parsed.forget <$> readHuaIn f T b = readHua f T b.toTask := by
  unfold readHuaIn readHua
  cases skipSpace f with
  | nil => simp [Functor.map, Except.map, forget_addTaskIn]
  | cons c f =>
    by_cases hdigit : c.isDigit = true
    · cases hscan : scanLong (c :: f) with
      | none => simp [Functor.map, Except.map, hdigit, hscan]
      | some w => simp [Functor.map, Except.map, hdigit, hscan, forget_addTaskIn, TaskBlock.toTask]
    · simp [Functor.map, Except.map, hdigit, forget_addTaskIn]

theorem readOptionalIn_forget (f : List Char) (hstores : b.lockStores = []) :
    Parsed.forget <$> readOptionalIn A f T b =
      readOptional A f T { b.task with myLocks := [] } := by
  have hnone : b.toTask = { b.task with myLocks := [] } := by
    simp [TaskBlock.toTask, hstores]
  unfold readOptionalIn readOptional
  cases skipSpace f with
  | nil => simp [Functor.map, Except.map, forget_addTaskIn, hnone]
  | cons c f =>
    by_cases hends : endsTask c = true
    · simp [Functor.map, Except.map, hends, forget_addTaskIn, hnone]
    · cases hscan : scanString (c :: f) with
      | none => simp [Functor.map, Except.map, hends, hscan]
      | some w =>
        simp only [hends, hscan, Bool.false_eq_true, if_false]
        rw [← initTaskLocksIn_toTask w hstores, map_bind, bind_map_left]
        congr 1
        funext x
        exact readHuaIn_forget w.rest

/-- **In cleared memory** the task is the one that `initTask` makes. -/
theorem initTaskIn_zero (tester : Nat) (f : List Char) (T : Tester σ) :
    Parsed.forget <$> initTaskIn A m tester .zero f T = initTask A m f T := by
  unfold initTaskIn initTask newTask
  rw [map_bind, bind_assoc]
  congr 1
  funext T
  have htask : (newTaskIn tester .zero).task = freshTask := rfl
  simp only [htask]
  cases scanTaskFields f with
  | none => rfl
  | some w =>
    show Parsed.forget <$> (initTaskFields m w T freshTask >>= fun x =>
      readOptionalIn A w.utility.rest x.1 { newTaskIn tester .zero with task := x.2 }) =
        initTaskFields m w T freshTask >>= fun x => readOptional A w.utility.rest x.1 x.2
    cases hfields : initTaskFields m w T freshTask with
    | error e => rfl
    | ok x =>
      obtain ⟨T', t'⟩ := x
      have hlocks : { t' with myLocks := [] } = t' := by
        obtain ⟨-, mask, masks, -, -, -, -, rfl⟩ := initTaskFields_eq_ok.mp hfields
        rfl
      have hread := readOptionalIn_forget (A := A) (T := T')
        (b := { newTaskIn tester .zero with task := t' }) w.utility.rest rfl
      simp only [hlocks] at hread
      exact hread

end Zero

/-! ## Other memory -/

/-- A block that has been made in other memory. Its locks begin `n` places further on. -/
def TaskBlock.over (b old : TaskBlock) (n : BitVec 32) : TaskBlock :=
  { b with
    thread := old.thread
    abortPointer := old.abortPointer
    workloadData := old.workloadData
    workloadTgData := old.workloadTgData
    cachedSlope := old.cachedSlope
    numMyLocks := n + b.numMyLocks
    lockStores := b.lockStores.map fun (i, l) => (n + i, l)
    localStartTime := old.localStartTime
    task := { b.task with
      lockedUsage := old.task.lockedUsage
      unlockedUsage := old.task.unlockedUsage
      maxReleases := old.task.maxReleases
      extraRelease := old.task.extraRelease } }

/-- The list of locks on the line of a task, if there is one. -/
def lockToken (f : List Char) : Option (List Char) := do
  let w ← scanTaskFields f
  match skipSpace w.utility.rest with
  | [] => none
  | c :: f => if endsTask c then none else (scanString (c :: f)).map (·.value)

/-- The line asks for all locks, which sets `num_my_locks`. -/
def saysAllLocks (f : List Char) : Bool := (lockToken f).any saysAll

/-- Where the stores to `my_locks` begin. -/
def firstLock (old : TaskBlock) (f : List Char) : BitVec 32 :=
  if saysAllLocks f then 0 else old.numMyLocks

section Over

variable {σ : Type} {A : Allocator σ} {m : Machine} {T : Tester σ} {old b : TaskBlock}
  {n : BitVec 32} {f : List Char}

theorem storeLock_over (digits : List Char) :
    storeLock (b.over old n) digits = (·.over old n) <$> storeLock b digits := by
  unfold storeLock
  split
  · rfl
  · simp [Functor.map, Except.map, TaskBlock.over, BitVec.add_assoc]

theorem foldlM_storeLock_over (numbers : List (List Char)) :
    numbers.foldlM storeLock (b.over old n) =
      (·.over old n) <$> numbers.foldlM storeLock b := by
  induction numbers generalizing b with
  | nil => rfl
  | cons digits numbers ih =>
    rw [List.foldlM_cons, List.foldlM_cons, storeLock_over, bind_map_left, map_bind]
    simp only [ih]

theorem initTaskLocksIn_over (w : Word (List Char)) :
    initTaskLocksIn A w T (b.over old n) =
      (fun (T, b) => (T, b.over old (if saysAll w.value then 0 else n))) <$>
        initTaskLocksIn A w T b := by
  unfold initTaskLocksIn initializeTaskLocksIn
  split
  · rfl
  · rw [map_bind]
    congr 1
    funext T
    split
    · simp [Functor.map, Except.map, pure, Except.pure, TaskBlock.over]
    · have hfold : (listDigits [] w.value).foldlM storeLock
          (TaskBlock.over { b with hasLocks := true } old n) = _ :=
        foldlM_storeLock_over (listDigits [] w.value)
      have hpair := congrArg (fun x => (fun b : TaskBlock => (T, b)) <$> x) hfold
      simp only [Functor.map_map] at hpair
      rw [map_bind]
      exact (bind_pure_comp _ _).trans (hpair.trans (bind_pure_comp _ _).symm)

/-- The same for what `init_task` leaves. -/
def Parsed.over (p : Parsed σ) (old : TaskBlock) (n : BitVec 32) : Parsed σ :=
  { p with block := p.block.over old n }

theorem addTaskIn_over (rest : List Char) :
    addTaskIn T (b.over old n) rest = (addTaskIn T b rest).over old n := by
  have htask : initGroupLeader T.taskList (b.over old n).task =
      ((addTaskIn T b rest).block.over old n).task := by
    unfold initGroupLeader addTaskIn TaskBlock.over
    simp only [initGroupLeader]
    cases T.taskList.find? (·.threadGroup = b.task.threadGroup) <;> rfl
  unfold addTaskIn Parsed.over
  rw [htask]
  rfl

theorem readHuaIn_over (f : List Char) :
    readHuaIn f T (b.over old n) = (·.over old n) <$> readHuaIn f T b := by
  unfold readHuaIn
  cases skipSpace f with
  | nil => exact congrArg Except.ok (addTaskIn_over _)
  | cons c f =>
    by_cases hdigit : c.isDigit = true
    · cases hscan : scanLong (c :: f) with
      | none => simp [Functor.map, Except.map, hdigit, hscan]
      | some w =>
        simp only [hdigit, hscan, Bool.not_true, Bool.false_eq_true, if_false]
        exact congrArg Except.ok (addTaskIn_over
          (b := { b with task := { b.task with huaUtility := toUInt w.value } }) _)
    · simp only [hdigit, Bool.not_false, if_true]
      exact congrArg Except.ok (addTaskIn_over _)

/-- Where the stores begin, for required fields that end before `f`. -/
def optionalFirst (n : BitVec 32) (f : List Char) : BitVec 32 :=
  match skipSpace f with
  | [] => n
  | c :: f =>
    if endsTask c then n
    else match scanString (c :: f) with
      | none => n
      | some w => if saysAll w.value then 0 else n

theorem readOptionalIn_over (f : List Char) : readOptionalIn A f T (b.over old n) =
    (·.over old (optionalFirst n f)) <$> readOptionalIn A f T b := by
  unfold readOptionalIn optionalFirst
  cases skipSpace f with
  | nil => exact congrArg Except.ok (addTaskIn_over _)
  | cons c f =>
    by_cases hends : endsTask c = true
    · simp only [hends, if_true]
      exact congrArg Except.ok (addTaskIn_over _)
    · cases hscan : scanString (c :: f) with
      | none => simp [Functor.map, Except.map, hends, hscan]
      | some w =>
        simp only [hends, hscan, Bool.false_eq_true, if_false]
        rw [initTaskLocksIn_over, bind_map_left, map_bind]
        congr 1
        funext x
        exact readHuaIn_over w.rest

theorem firstLock_eq {w : TaskFields} (hscan : scanTaskFields f = some w) :
    firstLock old f = optionalFirst old.numMyLocks w.utility.rest := by
  unfold firstLock saysAllLocks lockToken optionalFirst
  rw [hscan, Option.bind_eq_bind, Option.bind_some]
  cases skipSpace w.utility.rest with
  | nil => simp
  | cons c f =>
    by_cases hends : endsTask c = true
    · simp [hends]
    · cases hstring : scanString (c :: f) with
      | none => simp [hends, hstring]
      | some v => simp [hends, hstring]

/-- The required fields set the same in any task. -/
theorem initTaskFields_map {w : TaskFields} {t t' : Task} {g : Task → Task}
    (hg : ∀ mask, g { (setFields m w t).setPeriodTs with cpuMask := mask } =
      { (setFields m w t').setPeriodTs with cpuMask := mask }) :
    initTaskFields m w T t' = (fun x => (x.1, g x.2)) <$> initTaskFields m w T t := by
  unfold initTaskFields initializeTaskCpus
  split
  · rfl
  · rw [map_bind]
    congr 1
    funext mask
    split
    · rfl
    · cases addDomainMask mask T.domainMasks with
      | none => rfl
      | some masks =>
        refine congrArg Except.ok ?_
        simp only [hg]

/-- **What is kept of the memory**: a task made in other memory is the one that is made in
cleared memory, but for the fields that `new_task` leaves out. -/
theorem initTaskIn_eq (tester : Nat) (old : TaskBlock) (f : List Char) (T : Tester σ) :
    initTaskIn A m tester old f T =
      (·.over old (firstLock old f)) <$> initTaskIn A m tester .zero f T := by
  unfold initTaskIn
  rw [map_bind]
  congr 1
  funext T
  cases hscan : scanTaskFields f with
  | none => rfl
  | some w =>
    obtain ⟨g, hg⟩ : ∃ g : Task → Task, g = fun t =>
      ({ newTaskIn tester .zero with task := t }.over old old.numMyLocks).task := ⟨_, rfl⟩
    have hfields : initTaskFields m w T (newTaskIn tester old).task =
        (fun x => (x.1, g x.2)) <$> initTaskFields m w T (newTaskIn tester .zero).task :=
      initTaskFields_map fun mask => by rw [hg]; rfl
    have hblock : ∀ t, { newTaskIn tester old with task := g t } =
        { newTaskIn tester .zero with task := t }.over old old.numMyLocks := by
      intro t
      simp [hg, newTaskIn, TaskBlock.over, TaskBlock.zero]
    simp only [hfields, map_bind, bind_map_left, hblock, readOptionalIn_over, firstLock_eq hscan]

end Over

/-! ## The fields that a run finds -/

/-- The entry of `my_locks` as it has been stored, or `none` for what was in that array. -/
def TaskBlock.lockEntry (b : TaskBlock) (i : BitVec 32) : Option Int :=
  (b.lockStores.reverse.find? (·.1 = i)).map Prod.snd

/-- Two blocks are the same at a field. -/
def SameAt (b b' : TaskBlock) : TaskField → Prop
  | .tester => b.tester = b'.tester
  | .thread => b.thread = b'.thread
  | .abortPointer => b.abortPointer = b'.abortPointer
  | .workloadData => b.workloadData = b'.workloadData
  | .workloadTgData => b.workloadTgData = b'.workloadTgData
  | .cachedSlope => b.cachedSlope = b'.cachedSlope
  | .next => b.next = b'.next
  | .taskId => b.taskId = b'.taskId
  | .threadId => b.threadId = b'.threadId
  | .numMyLocks => b.numMyLocks = b'.numMyLocks
  | .myLocks => b.hasLocks = b'.hasLocks
  | .lockEntries => ∀ i : BitVec 32, 0 ≤ i.toInt → i.toInt < b.numMyLocks.toInt →
      b.lockEntry i = b'.lockEntry i
  | .cpuMask => b.task.cpuMask = b'.task.cpuMask
  | .threadGroup => b.task.threadGroup = b'.task.threadGroup
  | .groupLeader => b.task.groupLeader = b'.task.groupLeader
  | .period => b.task.period = b'.task.period
  | .periodTs => b.task.periodTs = b'.task.periodTs
  | .execTime => b.task.execTime = b'.task.execTime
  | .utility => b.task.utility = b'.task.utility
  | .huaUtility => b.task.huaUtility = b'.task.huaUtility
  | .taskWss => b.task.taskWss = b'.task.taskWss
  | .groupWss => b.task.groupWss = b'.task.groupWss
  | .lockedUsage => b.task.lockedUsage = b'.task.lockedUsage
  | .unlockedUsage => b.task.unlockedUsage = b'.task.unlockedUsage
  | .maxReleases => b.task.maxReleases = b'.task.maxReleases
  | .extraRelease => b.task.extraRelease = b'.task.extraRelease
  | .localStartTime => b.localStartTime = b'.localStartTime
  | .numReleases => b.task.numReleases = b'.task.numReleases
  | .numAborted => b.task.numAborted = b'.task.numAborted
  | .deadlinesMet => b.task.deadlinesMet = b'.task.deadlinesMet
  | .utilityAccrued => b.task.utilityAccrued = b'.task.utilityAccrued
  | .maxTardiness => b.task.maxTardiness = b'.task.maxTardiness

/-- The same writes to `my_locks` have been made, and the blocks are the same at the locks and
at every field that some sequence of runs reads before it writes it. -/
structure Agree (r : Role) (b b' : TaskBlock) : Prop where
  fields : ∀ runs f, ReadFirst f (life r runs) → SameAt b b' f
  numMyLocks : SameAt b b' .numMyLocks
  lockEntries : SameAt b b' .lockEntries
  lockStores : b.lockStores = b'.lockStores

/-- The leader of a thread group, for the task read after those in the list. -/
def groupLeaderOf (ts : List Task) (threadGroup : Nat) : Nat :=
  (initGroupLeader ts { freshTask with threadGroup }).groupLeader

/-- The task on the line leads its group. -/
def leadsGroup {σ : Type} (f : List Char) (T : Tester σ) : Bool :=
  (scanTaskFields f).any fun w =>
    groupLeaderOf T.taskList (toUInt w.threadGroup.value) = T.taskList.length

/-- `group_leader(t)`, for the task that has just been read. -/
def Parsed.role {σ : Type} (p : Parsed σ) (calls : WorkloadCalls) : Role :=
  ⟨calls, p.block.task.groupLeader = p.tester.taskList.length⟩

/-- Two contents of a block are the same where the line and the workload leave them as they
are. -/
structure SameLeftovers {σ : Type} (calls : WorkloadCalls) (f : List Char) (T : Tester σ)
    (old old' : TaskBlock) : Prop where
  locks : saysAllLocks f = true ∨ old.numMyLocks = old'.numMyLocks
  workloadData : calls.initTask = true ∨ old.workloadData = old'.workloadData
  workloadTgData : calls.initGroup = true ∨ leadsGroup f T = false ∨
    old.workloadTgData = old'.workloadTgData

section Agree

variable {σ : Type} {A : Allocator σ} {m : Machine} {T : Tester σ} {old old' b : TaskBlock}
  {n n' : BitVec 32} {f : List Char} {p : Parsed σ} {r : Role}

theorem initGroupLeader_leader (ts : List Task) (t : Task) :
    (initGroupLeader ts t).groupLeader = groupLeaderOf ts t.threadGroup := by
  unfold groupLeaderOf initGroupLeader
  cases ts.find? (·.threadGroup = t.threadGroup) <;> rfl

theorem readHuaIn_leader (h : readHuaIn f T b = .ok p) : p.tester = T ∧
    p.block.task.groupLeader = groupLeaderOf T.taskList b.task.threadGroup := by
  unfold readHuaIn at h
  split at h
  · obtain rfl := Except.ok.inj h
    exact ⟨rfl, initGroupLeader_leader _ _⟩
  · split at h
    · obtain rfl := Except.ok.inj h
      exact ⟨rfl, initGroupLeader_leader _ _⟩
    · split at h
      · cases h
      · obtain rfl := Except.ok.inj h
        exact ⟨rfl, initGroupLeader_leader _ _⟩

theorem foldlM_storeLock_task {numbers : List (List Char)} {b' : TaskBlock}
    (h : numbers.foldlM storeLock b = .ok b') : b'.task = b.task := by
  induction numbers generalizing b with
  | nil => rw [foldlM_nil_eq_ok.mp h]
  | cons digits numbers ih =>
    obtain ⟨b₁, hb₁, h⟩ := foldlM_cons_eq_ok.mp h
    rw [ih h]
    unfold storeLock at hb₁
    split at hb₁
    · cases hb₁
    · rw [← Except.ok.inj hb₁]

theorem initTaskLocksIn_task {w : Word (List Char)} {T' : Tester σ} {b' : TaskBlock}
    (h : initTaskLocksIn A w T b = .ok (T', b')) :
    T'.taskList = T.taskList ∧ b'.task = b.task := by
  unfold initTaskLocksIn at h
  split at h
  · cases h
  · obtain ⟨T₁, hT₁, h⟩ := bind_eq_ok.mp h
    obtain ⟨heap, -, rfl⟩ := allocate_eq_ok.mp hT₁
    split at h
    · cases h
      exact ⟨rfl, rfl⟩
    · obtain ⟨b₁, hb₁, h⟩ := bind_eq_ok.mp h
      cases h
      exact ⟨rfl, foldlM_storeLock_task (b := { b with hasLocks := true }) hb₁⟩

theorem readOptionalIn_leader (h : readOptionalIn A f T b = .ok p) :
    p.tester.taskList = T.taskList ∧
      p.block.task.groupLeader = groupLeaderOf T.taskList b.task.threadGroup := by
  unfold readOptionalIn at h
  split at h
  · obtain rfl := Except.ok.inj h
    exact ⟨rfl, initGroupLeader_leader _ _⟩
  · split at h
    · obtain rfl := Except.ok.inj h
      exact ⟨rfl, initGroupLeader_leader _ _⟩
    · split at h
      · cases h
      · obtain ⟨⟨T', b'⟩, hlocks, h⟩ := bind_eq_ok.mp h
        obtain ⟨hlist, htask⟩ := initTaskLocksIn_task hlocks
        obtain ⟨rfl, hleader⟩ := readHuaIn_leader h
        rw [hlist, htask] at hleader
        exact ⟨hlist, hleader⟩

/-- Whether the task leads its group is known from the line. -/
theorem role_eq (calls : WorkloadCalls) {tester : Nat}
    (h : initTaskIn A m tester old f T = .ok p) : p.role calls = ⟨calls, leadsGroup f T⟩ := by
  obtain ⟨T₁, hT₁, h⟩ := bind_eq_ok.mp h
  obtain ⟨heap, -, rfl⟩ := allocate_eq_ok.mp hT₁
  cases hscan : scanTaskFields f with
  | none =>
    rw [hscan] at h
    cases h
  | some w =>
    rw [hscan] at h
    obtain ⟨⟨T₂, t⟩, hfields, h⟩ := bind_eq_ok.mp h
    obtain ⟨-, mask, masks, -, -, -, rfl, rfl⟩ := initTaskFields_eq_ok.mp hfields
    obtain ⟨hlist, hleader⟩ := readOptionalIn_leader h
    unfold Parsed.role leadsGroup
    rw [hscan, hlist, hleader]
    rfl

/-- Everything but what is left over is the same in any two memories. -/
theorem agree_over_iff (r : Role) :
    Agree r (b.over old n) (b.over old' n') ↔ n = n' ∧
      (r.calls.initTask = true ∨ old.workloadData = old'.workloadData) ∧
      (r.calls.initGroup = true ∨ r.leader = false ∨
        old.workloadTgData = old'.workloadTgData) := by
  constructor
  · intro h
    refine ⟨?_, ?_, ?_⟩
    · exact (BitVec.add_left_inj _).mp h.numMyLocks
    · rcases Bool.eq_false_or_eq_true r.calls.initTask with hcall | hcall
      · exact .inl hcall
      · exact .inr (h.fields _ _ (readFirst_workloadData hcall))
    · rcases Bool.eq_false_or_eq_true r.calls.initGroup with hcall | hcall
      · exact .inl hcall
      · rcases Bool.eq_false_or_eq_true r.leader with hleader | hleader
        · exact .inr (.inr (h.fields _ _ (readFirst_workloadTgData hleader hcall)))
        · exact .inr (.inl hleader)
  · intro ⟨hn, hdata, htg⟩
    subst hn
    have hsame : ∀ f ∈ firstFields r, SameAt (b.over old n) (b.over old' n) f := by
      intro f hf
      cases f with
      | workloadData =>
        have hcall : r.calls.initTask = false := by simpa [firstFields] using hf
        exact hdata.resolve_left (by simp [hcall])
      | workloadTgData =>
        have hcall : r.leader = true ∧ r.calls.initGroup = false := by
          simpa [firstFields] using hf
        exact (htg.resolve_left (by simp [hcall])).resolve_left (by simp [hcall])
      | _ =>
        -- set by the line, or not read first
        first
          | exact rfl
          | exact fun _ _ _ => rfl
          | simp [firstFields] at hf
    refine ⟨fun runs f hf => hsame f (mem_firstFields_of_life hf), rfl, fun _ _ _ => rfl, rfl⟩

theorem firstLock_eq_iff :
    firstLock old f = firstLock old' f ↔
      saysAllLocks f = true ∨ old.numMyLocks = old'.numMyLocks := by
  unfold firstLock
  cases saysAllLocks f <;> simp

theorem Parsed.role_over (calls : WorkloadCalls) : (p.over old n).role calls = p.role calls := rfl

/-- **Two memories.** A line is read in the same way whatever the block holds, and the tester
is left the same. The tasks agree exactly when the leftovers do: `num_my_locks`, unless the line
asks for all locks, and the data that the workload has no function to set. -/
theorem parsed_agree_iff (A : Allocator σ) (m : Machine) (tester : Nat) (old old' : TaskBlock)
    (f : List Char) (T : Tester σ) :
    (∀ e, initTaskIn A m tester old f T = .error e ↔ initTaskIn A m tester old' f T = .error e) ∧
      ∀ p, initTaskIn A m tester old f T = .ok p →
        ∃ p', initTaskIn A m tester old' f T = .ok p' ∧ p'.tester = p.tester ∧ p'.rest = p.rest ∧
          ∀ calls, p'.role calls = p.role calls ∧
            (Agree (p.role calls) p.block p'.block ↔ SameLeftovers calls f T old old') := by
  have hold := initTaskIn_eq (A := A) (m := m) tester old f T
  have hold' := initTaskIn_eq (A := A) (m := m) tester old' f T
  cases hzero : initTaskIn A m tester .zero f T with
  | error e =>
    rw [hzero] at hold hold'
    refine ⟨fun _ => by rw [hold, hold']; exact Iff.rfl, fun p hp => ?_⟩
    rw [hold] at hp
    cases hp
  | ok p₀ =>
    rw [hzero] at hold hold'
    refine ⟨fun e => ?_, fun p hp => ?_⟩
    · rw [hold, hold']
      constructor
      · intro h
        cases h
      · intro h
        cases h
    rw [hold] at hp
    obtain rfl : p₀.over old (firstLock old f) = p := Except.ok.inj hp
    refine ⟨p₀.over old' (firstLock old' f), hold', rfl, rfl, fun calls => ⟨rfl, ?_⟩⟩
    rw [Parsed.role_over, role_eq calls hzero]
    refine (agree_over_iff _).trans ?_
    rw [firstLock_eq_iff]
    constructor
    · intro ⟨hlocks, hdata, htg⟩
      exact ⟨hlocks, hdata, htg⟩
    · intro h
      exact ⟨h.locks, h.workloadData, h.workloadTgData⟩

end Agree

/-- A block that held a task with a lock. -/
def TaskBlock.oneLock : TaskBlock := { zero with numMyLocks := 1 }

/-- A line without locks. -/
def noLocksLine : List Char := " 0 0 0 1000 500 1".toList

theorem isOk_initTaskIn_noLocks :
    (initTaskIn sampleAllocator sampleMachine 0 .zero noLocksLine noDomainTester).isOk = true := by
  decide +kernel

/-- A block that held a task without locks, of some other run. -/
def TaskBlock.otherTask : TaskBlock :=
  { zero with
    thread := 4096
    abortPointer := 8192
    workloadData := 12288
    workloadTgData := 16384
    lockStores := [(0#32, 3)]
    localStartTime := ⟨5, 6⟩ }

/-- The line is read in a cleared block and in two that are not. The lock of the first makes a
difference, what is in the second does not. -/
theorem parsed_agree_iff_noLocks :
    ∃ p, initTaskIn sampleAllocator sampleMachine 0 .zero noLocksLine noDomainTester = .ok p ∧
      (∃ p', initTaskIn sampleAllocator sampleMachine 0 .oneLock noLocksLine noDomainTester =
          .ok p' ∧ p'.tester = p.tester ∧ p'.rest = p.rest ∧
        ∀ calls, ¬Agree (p.role calls) p.block p'.block) ∧
      ∃ p', initTaskIn sampleAllocator sampleMachine 0 .otherTask noLocksLine noDomainTester =
          .ok p' ∧ p'.tester = p.tester ∧ p'.rest = p.rest ∧
        ∀ calls : WorkloadCalls, calls.initTask = true → calls.initGroup = true →
          Agree (p.role calls) p.block p'.block := by
  have hok := isOk_initTaskIn_noLocks
  cases hp : initTaskIn sampleAllocator sampleMachine 0 .zero noLocksLine noDomainTester with
  | error e =>
    rw [hp] at hok
    cases hok
  | ok p =>
    obtain ⟨p', hp', htester, hrest, hiff⟩ := (parsed_agree_iff sampleAllocator sampleMachine 0
      .zero .oneLock noLocksLine noDomainTester).2 p hp
    obtain ⟨p'', hp'', htester', hrest', hiff'⟩ := (parsed_agree_iff sampleAllocator sampleMachine 0
      .zero .otherTask noLocksLine noDomainTester).2 p hp
    have hlocks : ¬(saysAllLocks noLocksLine = true ∨
        TaskBlock.zero.numMyLocks = TaskBlock.oneLock.numMyLocks) := by decide +kernel
    refine ⟨p, rfl, ⟨p', hp', htester, hrest, fun calls => ?_⟩, p'', hp'', htester', hrest', ?_⟩
    · exact mt (hiff calls).2.mp fun h => hlocks h.locks
    · exact fun calls htask hgroup => (hiff' calls).2.mpr ⟨.inr rfl, .inl htask, .inl hgroup⟩

/-- The second of them has a lock that the line does not name. -/
theorem not_parsed_agree_noLocks : ¬∀ (old old' : TaskBlock) (f : List Char) (T : Tester Unit)
    (calls : WorkloadCalls) (p p' : Parsed Unit),
    initTaskIn sampleAllocator sampleMachine 0 old f T = .ok p →
      initTaskIn sampleAllocator sampleMachine 0 old' f T = .ok p' →
        Agree (p.role calls) p.block p'.block := by
  intro hall
  have hok := isOk_initTaskIn_noLocks
  cases hp : initTaskIn sampleAllocator sampleMachine 0 .zero noLocksLine noDomainTester with
  | error e =>
    rw [hp] at hok
    cases hok
  | ok p =>
    have hp' := initTaskIn_eq (A := sampleAllocator) (m := sampleMachine) 0 .oneLock noLocksLine
      noDomainTester
    rw [hp] at hp'
    have hagree := hall .zero .oneLock noLocksLine noDomainTester ⟨true, true, true, true⟩ p _
      hp hp'
    -- the count goes on from the one that was there
    have hcount : 0#32 = firstLock .oneLock noLocksLine :=
      (BitVec.add_left_inj p.block.numMyLocks).mp ((BitVec.zero_add _).trans hagree.numMyLocks)
    exact absurd hcount (by decide +kernel)

end Chronos.Taskset
