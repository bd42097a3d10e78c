import Chronos.Lib.Scanf
import Chronos.Task.Defs

/-!
# Reading a taskset file

`init_tasks` and the functions under it, on the characters of the file. Tasks are
records and `my_locks` is a list of indices into `tester.locks`, so what is
allocated matters only by whether `salloc` succeeds: an `Allocator` answers for
it. Overrunning a buffer on the stack is undefined and ends the run of the model.
-/

namespace Chronos.Taskset

open Lib

/-- How `init_tasks` ends without returning: `fatal_error`, another message and
`exit`, or behaviour that is not defined. -/
inductive Stop
  | fatal (msg : String)
  | exit (text : String)
  | undefined
  deriving DecidableEq, Repr

/-- The part of the heap this code sees: the answer of a `salloc` call is a block
or NULL, and there is none if the call does not return. No heap has a block of
2 ^ 63 bytes. -/
structure Allocator (σ : Type) where
  salloc : σ → Nat → Option (σ × Bool)
  refuses : ∀ s n s', 2 ^ 63 ≤ n → n % 16 = 0 → salloc s n ≠ some (s', true)

abbrev WORKLOAD_CAP_TASK_WSS : Nat := 1
abbrev WORKLOAD_CAP_GROUP_WSS : Nat := 2

/-- `struct workload`, as far as it is read here. -/
structure Workload where
  capabilities : Nat
  minTaskWss : Nat
  maxTaskWss : Nat
  minGroupWss : Nat
  maxGroupWss : Nat

/-- Where the program runs: the answer of `get_num_processors`, the workload, the
conversion of a `double` too large for its target, and the answer of `init_aborts`. -/
structure Machine where
  numProcessors : Nat
  workload : Workload
  outOfRange : ℚ → Nat
  initAborts : Int

/-- `struct test` while the file is read, with the locals of `init_tasks` and the
warnings printed. The newest task comes first in `taskList`. -/
structure Tester (σ : Type) where
  options : Options
  heap : σ
  domainMasks : List Nat
  numLocks : Int
  taskList : List Task
  seenGroup : Bool
  warnings : List String
  deriving DecidableEq, Repr

def Tester.start {σ : Type} (options : Options) (heap : σ) : Tester σ where
  options := options
  heap := heap
  domainMasks := []
  numLocks := -1
  taskList := []
  seenGroup := false
  warnings := []

abbrev sizeofTask : Nat := 224
abbrev sizeofChronosMutexT : Nat := 16
abbrev sizeofPointer : Nat := 8
abbrev sizeofLong : Nat := 8

section Reading

variable {σ : Type} (A : Allocator σ) (m : Machine)

/-- `salloc`, where NULL ends the program. -/
def allocate (onNull : Stop) (size : Nat) (T : Tester σ) : Except Stop (Tester σ) :=
  match A.salloc T.heap size with
  | none => .error .undefined
  | some (_, false) => .error onNull
  | some (heap, true) => .ok { T with heap }

/-- `initialize_test_locks`, once `tester.num_locks` is set. -/
def initializeTestLocks (T : Tester σ) : Except Stop (Tester σ) := do
  let T ← allocate A (.fatal "Failed to allocate memory.")
    (toULong (sizeofChronosMutexT * T.numLocks)) T
  let (warnings, options) := Chronos.initializeTestLocks T.numLocks T.options
  return { T with options, warnings := T.warnings ++ warnings }

/-! ## Lists of numbers -/

/-- The digits read into `tmp`, one string for each number of the list: it ends
with the first number that no comma follows. -/
def listDigits (digits : List Char) : List Char → List (List Char)
  | [] => [digits]
  | c :: s =>
    if c.isDigit then listDigits (digits ++ [c]) s
    else if c = ',' then digits :: listDigits [] s
    else [digits]

/-- `atoi`, on the digits at the start of `tmp`. -/
def atoi (digits : List Char) : Int := toInt (strtol false digits)

/-- The size of `tmp`, which also holds the character after the digits and a NUL. -/
abbrev tmpSize : Nat := 32

/-- The first three characters are `all`. -/
def saysAll (token : List Char) : Bool := token.take 3 = ['a', 'l', 'l']

/-- `(unsigned long) pow(2, cpu)` -/
def cpuBit (cpu : Nat) : Nat := Task.toUnsignedLong m.outOfRange (2 ^ cpu)

/-- One number of the list of processors, or-ed into the mask. -/
def addCpu (mask : Nat) (digits : List Char) : Except Stop Nat :=
  if tmpSize ≤ digits.length + 1 then .error .undefined
  else if m.numProcessors ≤ toUInt (atoi digits) then
    .error (.exit s!"Error: The processor specified ({atoi digits}) is larger than the number of procssors on this system({m.numProcessors}). Exiting.")
  else .ok (mask ||| cpuBit m (toUInt (atoi digits)))

/-- The mask of a list of processors. -/
def cpuMask (cpus : List Char) : Except Stop Nat :=
  if saysAll cpus then
    .ok ((List.range m.numProcessors).foldl (fun mask i => mask ||| cpuBit m i) 0)
  else (listDigits [] cpus).foldlM (addCpu m) 0

/-- Add a mask to the list of scheduling domains, if it is not there already. -/
def addDomainMask (mask : Nat) : List Nat → Option (List Nat)
  | [] => none
  | d :: ds =>
    if d = mask then some (d :: ds)
    else if d = 0 then some (mask :: ds)
    else (addDomainMask mask ds).map (d :: ·)

def initializeTaskCpus (cpus : List Char) (T : Tester σ) (t : Task) :
    Except Stop (Tester σ × Task) := do
  let mask ← cpuMask m cpus
  if mask = 0 then throw (.fatal "Empty domain mask")
  else match addDomainMask mask T.domainMasks with
    | some domainMasks => return ({ T with domainMasks }, { t with cpuMask := mask })
    | none => throw (.fatal ("You have more domain masks than processors. " ++
        "This isn't necessarily a bad thing, we just don't currently support it. " ++
        "Contact one of our developers (http://chronoslinux.org) " ++
        "and let us know you need this capability. Exiting."))

/-- One number of the list of locks. Nothing compares it, or how many there are,
with `tester.num_locks`. -/
def addLock (locks : List Int) (digits : List Char) : Except Stop (List Int) :=
  if tmpSize ≤ digits.length + 1 then .error .undefined
  else .ok (locks ++ [atoi digits])

def initializeTaskLocks (locks : List Char) (T : Tester σ) (t : Task) :
    Except Stop (Tester σ × Task) := do
  let T ← allocate A (.fatal "Failed to allocate memory.")
    (toULong (sizeofPointer * T.numLocks)) T
  if saysAll locks then
    return (T, { t with myLocks := (List.range T.numLocks.toNat).map Int.ofNat })
  else
    let myLocks ← (listDigits [] locks).foldlM addLock t.myLocks
    return (T, { t with myLocks })

/-! ## Tasks -/

/-- What `new_task` leaves in memory that was never used. -/
def freshTask : Task where
  cpuMask := 0
  threadGroup := 0
  groupLeader := 0
  myLocks := []
  period := 0
  periodTs := ⟨0, 0⟩
  execTime := 0
  utility := 0
  huaUtility := 0
  taskWss := -1
  groupWss := -1
  lockedUsage := 0
  unlockedUsage := 0
  maxReleases := 0
  extraRelease := false
  numReleases := 0
  numAborted := 0
  deadlinesMet := 0
  utilityAccrued := 0
  maxTardiness := 0

def newTask (T : Tester σ) : Except Stop (Tester σ × Task) := do
  let T ← allocate A (.exit "Error allocating memory. Exiting.") sizeofTask T
  return (T, freshTask)

/-- The working set size a workload makes of the one in the file. -/
def clampWss (capable : Bool) (min max : Nat) (wss : Int) : Int :=
  if !capable then 0
  else if wss < min then min
  else if max < wss then max
  else wss

/-- `init_group_leader`, for the task read after those in the list. -/
def initGroupLeader (taskList : List Task) (t : Task) : Task :=
  match taskList.find? (·.threadGroup = t.threadGroup) with
  | some curr => { t with groupLeader := curr.groupLeader }
  | none => { t with groupLeader := taskList.length }

def addTask (T : Tester σ) (t : Task) : Tester σ :=
  { T with taskList := initGroupLeader T.taskList t :: T.taskList }

/-- The required fields of a task line. -/
structure TaskFields where
  cpus : Word (List Char)
  threadGroup : Word Int
  taskWss : Word Int
  period : Word Int
  execTime : Word Int
  utility : Word Int
  deriving DecidableEq, Repr

/-- `fscanf(f, "%s %d %ld %ld %ld %d ", …)` up to the last conversion. -/
def scanTaskFields (f : List Char) : Option TaskFields := do
  let cpus ← scanString f
  let threadGroup ← scanLong cpus.rest
  let taskWss ← scanLong threadGroup.rest
  let period ← scanLong taskWss.rest
  let execTime ← scanLong period.rest
  let utility ← scanLong execTime.rest
  return { cpus, threadGroup, taskWss, period, execTime, utility }

/-- The size of the buffers that `%s` fills. -/
abbrev tokenSize : Nat := 1024

/-- The fields of a task that are numbers in the file. -/
def setFields (w : TaskFields) (t : Task) : Task :=
  { t with
    threadGroup := toUInt w.threadGroup.value
    taskWss := clampWss (m.workload.capabilities &&& WORKLOAD_CAP_TASK_WSS ≠ 0)
      m.workload.minTaskWss m.workload.maxTaskWss w.taskWss.value
    period := toULong w.period.value
    execTime := toULong w.execTime.value
    utility := toUInt w.utility.value }

/-- What `init_task` does with the required fields. -/
def initTaskFields (w : TaskFields) (T : Tester σ) (t : Task) : Except Stop (Tester σ × Task) :=
  if tokenSize ≤ w.cpus.value.length then .error .undefined
  else initializeTaskCpus m w.cpus.value T (setFields m w t).setPeriodTs

/-- What `init_task` does with a list of locks. -/
def initTaskLocks (w : Word (List Char)) (T : Tester σ) (t : Task) :
    Except Stop (Tester σ × Task) :=
  if tokenSize ≤ w.value.length then .error .undefined
  else initializeTaskLocks A w.value T t

/-- A character that ends a task line before the optional fields. -/
def endsTask (c : Char) : Bool := c = 'T' || c = '#' || c = 'G'

/-- The end of `init_task`: the HUA utility, if there is one, for which the lookahead
has skipped white space and may see the next line. -/
def readHua (f : List Char) (T : Tester σ) (t : Task) : Except Stop (Tester σ × List Char) :=
  match skipSpace f with
  | [] => .ok (addTask T t, [])
  | c :: f =>
    if !c.isDigit then .ok (addTask T t, c :: f)
    else match scanLong (c :: f) with
      | none => .error (.fatal "Ill-formed taskset file: improper task HUA format.")
      | some w => .ok (addTask T { t with huaUtility := toUInt w.value }, skipSpace w.rest)

/-- The optional fields in `init_task`, whose lookahead may see the next line too. -/
def readOptional (f : List Char) (T : Tester σ) (t : Task) : Except Stop (Tester σ × List Char) :=
  match skipSpace f with
  | [] => .ok (addTask T t, [])
  | c :: f =>
    if endsTask c then .ok (addTask T t, c :: f)
    else match scanString (c :: f) with
      | none => .error (.fatal "Ill-formed taskset file: improper task lock list format.")
      | some w => do
        let (T, t) ← initTaskLocks A w T t
        readHua w.rest T t

def initTask (f : List Char) (T : Tester σ) : Except Stop (Tester σ × List Char) := do
  let (T, t) ← newTask A T
  match scanTaskFields f with
  | none => .error (.fatal ("Ill-formed taskset file: " ++
      "missing one or more required fields for task " ++
      "(number of allowed cpus, thread group, task WSS, period in us, execution time in us, " ++
      "and task utility)."))
  | some w => do
    let (T, t) ← initTaskFields m w T t
    readOptional A w.utility.rest T t

/-! ## Groups -/

/-- Set the working set size of the leader of a group, `none` if no task is in it. -/
def setGroupWss (threadGroup : Nat) (wss : Int) : List Task → Option (List Task)
  | [] => none
  | t :: ts =>
    if t.groupLeader = ts.length ∧ t.threadGroup = threadGroup then
      some ({ t with groupWss := wss } :: ts)
    else (setGroupWss threadGroup wss ts).map (t :: ·)

/-- The size a group gets. -/
def groupWss (wss : Word Int) : Int :=
  clampWss (m.workload.capabilities &&& WORKLOAD_CAP_GROUP_WSS ≠ 0)
    m.workload.minGroupWss m.workload.maxGroupWss wss.value

/-- What `init_group` does with its two fields. -/
def initGroupFields (threadGroup wss : Word Int) (T : Tester σ) : Except Stop (Tester σ) :=
  match setGroupWss (toUInt threadGroup.value) (groupWss m wss) T.taskList with
  | some taskList => .ok { T with taskList }
  | none => .error (.fatal
      "Ill-formed taskset file: group line specifies empty group (i.e. no tasks are in it).")

/-- `fscanf(f, "%d %ld ", …)` up to the last conversion. -/
def scanGroupFields (f : List Char) : Option (Word Int × Word Int) := do
  let threadGroup ← scanLong f
  let wss ← scanLong threadGroup.rest
  return (threadGroup, wss)

def initGroup (f : List Char) (T : Tester σ) : Except Stop (Tester σ × List Char) :=
  match scanGroupFields f with
  | none => .error (.fatal ("Ill-formed taskset file: " ++
      "missing one or more required fields for group (group number, group WSS)."))
  | some (threadGroup, wss) => do
    let T ← initGroupFields m threadGroup wss T
    return (T, skipSpace wss.rest)

/-! ## The file -/

/-- The rest of the file after the line that a comment is on. -/
def skipLine (f : List Char) : List Char := (f.dropWhile (· ≠ '\n')).tail

/-- One round of the loop of `init_tasks`, after reading `c`. -/
def readEntry (c : Char) (f : List Char) (T : Tester σ) : Except Stop (Tester σ × List Char) :=
  if c = '#' then .ok (T, skipLine f)
  else if c = 'L' ∧ T.numLocks = -1 then
    match scanLong f with
    | none => .error (.fatal
        "Ill-formed taskset file: number of locks on 'L' line improperly formatted.")
    | some w => do
      let T ← initializeTestLocks A { T with numLocks := toInt w.value }
      return (T, skipSpace w.rest)
  else if c = 'T' then
    if T.numLocks < 0 then .error (.fatal
      "Ill-formed taskset file: the number of locks must preceed the first task definition.")
    else if T.seenGroup then .error (.fatal
      "Ill-formed taskset file: no task definition may follow any group line.")
    else initTask A m f T
  else if c = 'G' then initGroup m f { T with seenGroup := true }
  else .error (.fatal
    "Ill-formed taskset file: line doesn't begin with either '#', 'T', 'L', or 'G'.")

/-- The loop of `init_tasks`; every round reads a character, so that it makes at
most as many rounds as the file has characters. -/
def readEntries : Nat → List Char → Tester σ → Except Stop (Tester σ)
  | _, [], T => .ok T
  | 0, _ :: _, _ => .error .undefined
  | rounds + 1, c :: f, T => do
    let (T, f) ← readEntry A m c f T
    readEntries rounds f T

/-- The end of `init_tasks`: the checks after the loop, the array of the tasks and
the abort device. -/
def finishTasks (T : Tester σ) : Except Stop (Tester σ) :=
  if T.numLocks < 0 then .error (.fatal "Number of locks not found in taskset file.")
  else if T.taskList = [] then .error (.fatal "No tasks found in taskset file")
  else do
    let T ← allocate A (.fatal "Failed to allocate memory.")
      (sizeofPointer * T.taskList.length) T
    if m.initAborts ≠ 0 then throw (.fatal "Failed to initialize abort device.")
    else return T

/-- `init_tasks`; a file that cannot be opened is `none`. -/
def initTasks (file : Option (List Char)) (T : Tester σ) : Except Stop (Tester σ) := do
  let T ← allocate A (.fatal "Failed to allocate memory.") (sizeofLong * m.numProcessors) T
  match file with
  | none => throw (.fatal "Failed to open taskset file.")
  | some f =>
    let T ← readEntries A m f.length f
      { T with domainMasks := List.replicate m.numProcessors 0, seenGroup := false }
    finishTasks A m T

end Reading

end Chronos.Taskset
