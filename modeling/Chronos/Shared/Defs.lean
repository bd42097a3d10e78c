import Chronos.Salloc.Run
import Chronos.Taskset.Locks

/-!
# The objects in shared memory

What `run_test` does with the heap of `salloc.c`: the barrier, the domain masks,
the locks, a `struct task` and perhaps a `my_locks` for every task, and the array
of the tasks, which it gives back at the end. The entries of the file come in as
`lex` reads them. The pointers that `initialize_task_locks` stores are stored at
their addresses. All else the program stores goes into an object it got from
`salloc` or through one of those pointers, and is left open: `Surroundings` says
what an object is filled with, and `Tests` what is stored while the tests run. The
pointers to the objects are set once, so they are kept here and not read back.
-/

namespace Chronos.Shared

open Lib Salloc Taskset

/-- Why `run_test` does not return. -/
inductive Failure
  | fault (f : Fault)
  /-- `salloc` returned NULL, which ends the program. -/
  | noMemory
  deriving DecidableEq, Repr

abbrev sizeofPthreadBarrierT : Nat := 32

/-- The pointers to a `struct task` and in its `my_locks`, which is NULL without a
list of locks, and the locks of the list. -/
structure TaskObject where
  task : Nat
  myLocks : Nat
  locks : List Int
  deriving DecidableEq, Repr

/-- `struct test`, as far as it points into shared memory, and the heap. `obtained`
lists what `salloc` has returned and `released` what `sfree` was called with, the
last call first. The newest task comes first in `taskList`. -/
structure State where
  heap : Heap
  barrier : Nat
  domainMasks : Nat
  locks : Nat
  numLocks : Int
  taskList : List TaskObject
  tasks : Nat
  obtained : List Allocation
  released : List Nat

/-- The program before its first call of `salloc`, in a memory `mem`. -/
def State.start (mem : Memory) : State where
  heap := (Config.start mem).heap
  barrier := 0
  domainMasks := 0
  locks := 0
  numLocks := -1
  taskList := []
  tasks := 0
  obtained := []
  released := []

/-- What the model leaves open: the answers of the system, how many steps a search
of the allocator may make, and the bytes the program puts into the object at an
address. -/
structure Surroundings where
  os : Os
  steps : Nat
  contents : Nat → List (Fin 256)

/-! ## Stores -/

/-- Store bytes, each at its address. -/
def storeBytes (s : Heap) : List (Nat × Fin 256) → Except Failure Heap
  | [] => .ok s
  | (addr, byte) :: stores =>
    if s.mem.mapped addr then storeBytes { s with mem := s.mem.setByte addr byte } stores
    else .error (.fault (.segv addr))

/-- Store a pointer. -/
def storePointer (s : Heap) (addr ptr : Nat) : Except Failure Heap :=
  if s.mem.Mapped addr sizeofPointer then
    .ok { s with mem := s.mem.poke sizeofPointer addr ptr }
  else .error (.fault (.segv addr))

/-- `&tester.locks[l]` -/
def lockAddr (locks : Nat) (l : Int) : Nat := toULong (locks + sizeofChronosMutexT * l)

/-- Store the addresses of locks in a `my_locks`, from `addr` on. -/
def storeLocks (locks : Nat) : List Int → Nat → Heap → Except Failure Heap
  | [], _, s => .ok s
  | l :: ls, addr, s => do
    let s ← storePointer s addr (lockAddr locks l)
    storeLocks locks ls (addr + sizeofPointer) s

section Program

variable (E : Surroundings)

/-! ## Obtaining the objects -/

/-- `salloc`, after which the program fills the object in. -/
def allocate (n : Nat) (S : State) : Except Failure (State × Nat) :=
  match S.heap.salloc E.os E.steps n with
  | .error f => .error (.fault f)
  | .ok (heap, ptr) =>
    if ptr = 0 then .error .noMemory
    else do
      let heap ← storeBytes heap
        (((E.contents ptr).take n).mapIdx fun i byte => (ptr + i, byte))
      return ({ S with heap, obtained := ⟨ptr, n⟩ :: S.obtained }, ptr)

/-- `initialize_test_locks`, for the number on the `L` line. -/
def initializeTestLocks (numLocks : Int) (S : State) : Except Failure State := do
  let (S, locks) ← allocate E (toULong (sizeofChronosMutexT * numLocks)) S
  return { S with locks, numLocks }

/-- `initialize_task_locks` -/
def initializeTaskLocks (token : List Char) (S : State) : Except Failure (State × Nat) := do
  let (S, myLocks) ← allocate E (toULong (sizeofPointer * S.numLocks)) S
  let heap ← storeLocks S.locks (lockIds S.numLocks token) myLocks S.heap
  return ({ S with heap }, myLocks)

/-- `init_task`, for a line with this list of locks. -/
def initTask (lockList : Option (List Char)) (S : State) : Except Failure State := do
  let (S, task) ← allocate E sizeofTask S
  match lockList with
  | none => return { S with taskList := ⟨task, 0, []⟩ :: S.taskList }
  | some token => do
    let (S, myLocks) ← initializeTaskLocks E token S
    return { S with taskList := ⟨task, myLocks, lockIds S.numLocks token⟩ :: S.taskList }

/-- One round of the loop of `init_tasks`. -/
def readItem (S : State) : Item → Except Failure State
  | .comment => .ok S
  | .locks w => initializeTestLocks E (toInt w.value) S
  | .task w optional => initTask E (Item.task w optional).lockList S
  | .group _ _ => .ok S

/-- The start of `init_tasks`, up to its loop. -/
def beginTasks (m : Machine) (S : State) : Except Failure State := do
  let (S, domainMasks) ← allocate E (sizeofLong * m.numProcessors) S
  return { S with domainMasks }

/-- The end of `init_tasks`, after its loop. -/
def finishTasks (S : State) : Except Failure State := do
  let (S, tasks) ← allocate E (sizeofPointer * S.taskList.length) S
  return { S with tasks }

/-- `init_tasks`, for an accepted file with these entries. -/
def initTasks (m : Machine) (items : List Item) (S : State) : Except Failure State := do
  let S ← beginTasks E m S
  let S ← items.foldlM (readItem E) S
  finishTasks E S

/-! ## Giving them back -/

/-- `sfree` -/
def release (ptr : Nat) (S : State) : Except Failure State :=
  match S.heap.sfree E.steps ptr with
  | .error f => .error (.fault f)
  | .ok heap => .ok { S with heap, released := ptr :: S.released }

def cleanupTestLocks (S : State) : Except Failure State := do
  let S ← release E S.locks S
  return { S with locks := 0, numLocks := 0 }

/-- One round of the loop of `cleanup_tasks`. -/
def cleanupTask (S : State) (t : TaskObject) : Except Failure State := do
  let S ← if t.myLocks ≠ 0 then release E t.myLocks S else pure S
  release E t.task S

def cleanupTasks (S : State) : Except Failure State := do
  let S ← release E S.domainMasks S
  let S ← S.taskList.foldlM (cleanupTask E) { S with domainMasks := 0 }
  let S ← release E S.tasks { S with taskList := [] }
  return { S with tasks := 0 }

/-! ## The whole -/

/-- An address the program may store to while the tests run: in an object, or, if
there is locking, in a mutex that a task points to. -/
def State.Writable (locking : Nat) (S : State) (addr : Nat) : Prop :=
  (∃ a ∈ S.obtained, a.ptr ≤ addr ∧ addr < a.ptr + a.bytes) ∨
    (locking ≠ 0 ∧ ∃ t ∈ S.taskList, ∃ l ∈ t.locks,
      lockAddr S.locks l ≤ addr ∧ addr < lockAddr S.locks l + sizeofChronosMutexT)

/-- What is stored while the tests run, by any of the processes. -/
structure Tests (locking : Nat) where
  stores : State → List (Nat × Fin 256)
  inside : ∀ S, ∀ p ∈ stores S, S.Writable locking p.1

/-- The calls of `run()`. -/
def runTests {locking : Nat} (tests : Tests locking) (S : State) : Except Failure State := do
  let heap ← storeBytes S.heap (tests.stores S)
  return { S with heap }

/-- `run_test`, for a taskset file with these entries. -/
def runTest {locking : Nat} (m : Machine) (items : List Item) (tests : Tests locking) (S : State) :
    Except Failure State := do
  let (S, barrier) ← allocate E sizeofPthreadBarrierT S
  let S ← initTasks E m items { S with barrier }
  let S ← runTests tests S
  let S ← cleanupTestLocks E S
  let S ← cleanupTasks E S
  release E S.barrier S

end Program

end Chronos.Shared
