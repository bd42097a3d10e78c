import Chronos.Lib.Directory
import Chronos.Run.CommandLine
import Chronos.Slope.Repair

/-!
# The slope files on disk

The generator of slopes checks the file of a workload's average slopes, or those of all
workloads, and writes anew those that have no slope for the smallest sizes, or all if it is
forced to. The test application reads them before the first job of a task, or the files of the
worst-case slopes, which the generator leaves alone.

The access rights and what is measured are those of a run. A run may be killed, which leaves
behind a prefix of its writes.
-/

namespace Chronos.Slope.Store

open Lib Taskset

/-! ## The workloads -/

abbrev NUM_WORKLOADS : Nat := 6

/-- An entry of `workloads`. -/
structure WorkloadListing where
  name : List Char
  w : Workload

def burnLoopWorkload : Workload := ⟨0, 0, 0, 0, 0⟩

/-- `linked_list_workload`, and `bst_workload` as well -/
def nodesWorkload : Workload := { arrayWalkWorkload with maxGroupWss := 1024 * 512 }

def workloads : Fin NUM_WORKLOADS → WorkloadListing
  | 0 => ⟨"burn_loop".toList, burnLoopWorkload⟩
  | 1 => ⟨"array_walk".toList, arrayWalkWorkload⟩
  | 2 => ⟨"array_backwards".toList, arrayWalkWorkload⟩
  | 3 => ⟨"array_random".toList, arrayWalkWorkload⟩
  | 4 => ⟨"linked_list".toList, nodesWorkload⟩
  | 5 => ⟨"bst".toList, nodesWorkload⟩

/-- `get_workload_struct`, whose test of the bounds no workload fails: `valid_workloads`. -/
def getWorkloadStruct (i : Fin NUM_WORKLOADS) : Workload := (workloads i).w

def getWorkloadName (i : Fin NUM_WORKLOADS) : List Char := (workloads i).name

/-- `get_slope_filename` -/
def slopeFilename (i : Fin NUM_WORKLOADS) (timing : Run.TimingMethod) : List Char :=
  "/usr/local/chronos/slope/".toList ++ getWorkloadName i ++ '_' ::
    (if timing = .average then "average".toList else "wcet".toList) ++ ".conf".toList

/-! ## The functions on files -/

/-- What the process may open. -/
structure Access where
  readable : List Char → Bool
  writable : List Char → Bool
  creatable : List Char → Bool

abbrev Files := Directory (List Char) Line

abbrev FileWrite := Write (List Char) Line

/-- What a function has written, and the message of the fatal error in which it ended. -/
structure Ran where
  writes : List FileWrite
  fatal : Option String
  deriving DecidableEq, Repr

/-- What comes next sees the files as they have become. -/
def Ran.andThen (r : Ran) (files : Files) (next : Files → Ran) : Ran :=
  match r.fatal with
  | some _ => r
  | none =>
    let r' := next (files.after r.writes)
    ⟨r.writes ++ r'.writes, r'.fatal⟩

section

variable (a : Access) (files : Files) (i : Fin NUM_WORKLOADS) (timing : Run.TimingMethod)

/-- `fopen` for reading -/
def Access.read (filename : List Char) : Option (List Line) :=
  if a.readable filename then files filename else none

/-- Whether `fopen` succeeds for writing or appending. -/
def Access.mayWrite (filename : List Char) : Bool :=
  match files filename with
  | some _ => a.writable filename
  | none => a.creatable filename

def workloadSlopeFileAccessible : Bool × List FileWrite :=
  let filename := slopeFilename i timing
  match files filename with
  | some _ => (a.writable filename && a.readable filename, [])
  | none => if a.creatable filename then (true, [.truncate filename]) else (false, [])

def clearWorkloadSlope : Int × List FileWrite :=
  let filename := slopeFilename i timing
  if a.mayWrite files filename then (0, [.truncate filename]) else (-1, [])

def getWorkloadSlope (taskWss groupWss : Nat) : ℚ :=
  match a.read files (slopeFilename i timing) with
  | none => -1
  | some file => Slope.getWorkloadSlope (getWorkloadStruct i) taskWss groupWss file

def putWorkloadSlope (slope : ℚ) (taskWss groupWss : Nat) : Int × List FileWrite :=
  let filename := slopeFilename i timing
  if a.mayWrite files filename then
    (0, [.append filename ⟨realWss (getWorkloadStruct i) taskWss groupWss, printSlope slope⟩])
  else (-1, [])

end

section

variable (a : Access) (i : Fin NUM_WORKLOADS) (measured : Nat → ℚ)

/-- The loop of `update_slopes`. -/
def putAverageSlopes : List Nat → Files → Ran
  | [], _ => ⟨[], none⟩
  | k :: ks, files =>
    let w := getWorkloadStruct i
    let (status, writes) := putWorkloadSlope a files i .average (measured k)
      (sampleWss w.minTaskWss w.maxTaskWss k) (sampleWss w.minGroupWss w.maxGroupWss k)
    if status ≠ 0 then ⟨writes, some "Unable to write average slope"⟩
    else (Ran.mk writes none).andThen files (putAverageSlopes ks)

/-- The samples of a workload. -/
def samples (w : Workload) : Nat := if noWssVariation w then 1 else SLOPE_GEN_WSS_SAMPLES

/-- What it returns for `clear_workload_slope` is not looked at. -/
def updateSlopes (files : Files) : Ran :=
  (Ran.mk (clearWorkloadSlope a files i .average).2 none).andThen files
    (putAverageSlopes a i measured (List.range (samples (getWorkloadStruct i))))

def checkSlopes (force : Bool) (files : Files) : Ran :=
  let (accessible, writes) := workloadSlopeFileAccessible a files i .average
  if !accessible then
    ⟨writes, some <| "Could not access the slope files. " ++
      "Check to make sure you are running as root (or sudo)."⟩
  else
    (Ran.mk writes none).andThen files fun files =>
      let averageSlope :=
        getWorkloadSlope a files i .average DEFAULT_MIN_TASK_WSS DEFAULT_MIN_GROUP_WSS
      if averageSlope ≤ 0 ∨ force = true then updateSlopes a i measured files else ⟨[], none⟩

end

/-! ## The generator -/

/-- The locals of its `main`. -/
structure Locals where
  workloadName : Option (List Char)
  force : Bool
  verbose : Bool
  deriving DecidableEq, Repr

def optstring : List Char := "w:fv".toList

/-- A round of the loop around `getopt`; otherwise the usage is printed. -/
def handle (l : Locals) : Opt → Option Locals
  | .flag 'f' => some { l with force := true }
  | .flag 'v' => some { l with verbose := true }
  | .arg 'w' optarg => some { l with workloadName := some optarg }
  | _ => none

def parse (argv : List (List Char)) : Option Locals :=
  (getopt (wantsArg optstring) none argv.tail).1.foldlM handle ⟨none, false, false⟩

/-- The workload of its name, or -1 for all of them. -/
def Locals.workload (l : Locals) : Option Int :=
  match l.workloadName with
  | none => some (-1)
  | some workloadName =>
    let workload := Run.findWorkload workloadName
    if workload < 0 then none else some workload

/-- Those whose slopes are checked, one after the other. -/
def selected (workload : Int) : List (Fin NUM_WORKLOADS) :=
  if workload < 0 then List.finRange NUM_WORKLOADS
  else (List.finRange NUM_WORKLOADS).filter fun i => (i : Int) = workload

def checkAll (a : Access) (measured : Fin NUM_WORKLOADS → Nat → ℚ) (force : Bool) :
    List (Fin NUM_WORKLOADS) → Files → Ran
  | [], _ => ⟨[], none⟩
  | i :: is, files =>
    (checkSlopes a i (measured i) force files).andThen files (checkAll a measured force is)

/-- A call of the generator: the words, whether the memory can be locked, and what is found
on the machine. -/
structure Invocation where
  argv : List (List Char)
  mlockall : Bool
  access : Access
  measured : Fin NUM_WORKLOADS → Nat → ℚ

/-- How it ends: the usage is another way to return zero. -/
inductive End
  | usage
  | returns (status : Nat)
  | fatal (msg : String)
  deriving DecidableEq, Repr

def main (v : Invocation) (files : Files) : List FileWrite × End :=
  match parse v.argv with
  | none => ([], .usage)
  | some l =>
    match l.workload with
    | none => ([], .fatal "Invalid workload identifier.\n")
    | some workload =>
      if !v.mlockall then ([], .returns 1)
      else
        let r := checkAll v.access v.measured l.force (selected workload) files
        (r.writes, match r.fatal with | some msg => .fatal msg | none => .returns 0)

/-! ## The test application -/

/-- What `workload_init_task` stores in `cached_slope`. -/
def cachedSlope (a : Access) (files : Files) (i : Fin NUM_WORKLOADS) (timing : Run.TimingMethod)
    (taskWss groupWss : Nat) : Except String ℚ :=
  match timing with
  | .average | .timer =>
    let slope := getWorkloadSlope a files i .average taskWss groupWss
    if slope ≤ 0 then .error "Could not open slope file to read average slope." else .ok slope
  | .wcet =>
    let slope := getWorkloadSlope a files i .wcet taskWss groupWss
    if slope ≤ 0 then .error "Could not open slope file to read WCET slope." else .ok slope

/-! ## The table -/

theorem valid_workloads (i : Fin NUM_WORKLOADS) :
    workloadWssValidBounds (getWorkloadStruct i) = true := by
  revert i
  decide

theorem names_workloads : (List.finRange NUM_WORKLOADS).map getWorkloadName = Run.workloadNames :=
  rfl

theorem getWorkloadName_injective : Function.Injective getWorkloadName := by
  have hnodup : ((List.finRange NUM_WORKLOADS).map getWorkloadName).Nodup := by
    rw [names_workloads]
    decide
  exact fun i j h => List.inj_on_of_nodup_map hnodup (List.mem_finRange i) (List.mem_finRange j) h

/-- Each workload has a file of its own for each of the two methods. -/
theorem slopeFilename_eq_iff {i j : Fin NUM_WORKLOADS} {timing timing' : Run.TimingMethod} :
    slopeFilename i timing = slopeFilename j timing' ↔
      i = j ∧ (timing = .average ↔ timing' = .average) := by
  -- what is behind the name tells the methods apart
  have hends (u v : List Char) :
      u ++ "_average.conf".toList ≠ v ++ "_wcet.conf".toList := by
    intro h
    have h' : u ++ "_averag".toList ++ "e.conf".toList = v ++ "_wce".toList ++ "t.conf".toList := by
      rw [List.append_assoc, List.append_assoc]
      exact h
    exact absurd (List.append_inj' h' rfl).2 (by decide)
  have hfile (i : Fin NUM_WORKLOADS) (timing : Run.TimingMethod) : slopeFilename i timing =
      "/usr/local/chronos/slope/".toList ++ (getWorkloadName i ++
        if timing = .average then "_average.conf".toList else "_wcet.conf".toList) := by
    unfold slopeFilename
    rw [List.append_assoc, List.append_assoc]
    split <;> rfl
  rw [hfile, hfile, List.append_cancel_left_eq]
  by_cases ht : timing = .average <;> by_cases ht' : timing' = .average
  · rw [if_pos ht, if_pos ht', List.append_cancel_right_eq, getWorkloadName_injective.eq_iff]
    tauto
  · rw [if_pos ht, if_neg ht']
    have := hends (getWorkloadName i) (getWorkloadName j)
    tauto
  · rw [if_neg ht, if_pos ht']
    have := (hends (getWorkloadName j) (getWorkloadName i)).symm
    tauto
  · rw [if_neg ht, if_neg ht', List.append_cancel_right_eq, getWorkloadName_injective.eq_iff]
    tauto

end Chronos.Slope.Store
