import Chronos.Lib.Getopt
import Chronos.Lib.Scanf
import Chronos.Run.Schedulers
import Chronos.Task.Defs

/-!
# The command line

`main` reads its options with `getopt`, looks the names among them up, and runs the test if
`validate_options` finds nothing wrong. What it hands to `run_test` says of each letter what
its last occurrence was, so that neither the order of the options matters, nor how they are put
into words.
-/

namespace Chronos.Run

open Lib

/-- `OUTPUT_LOG` and so on -/
inductive OutputFormat
  | log
  | excel
  | gnuplot
  | verbose
  deriving DecidableEq, Repr

/-- `TIMING_AVERAGE` and so on -/
inductive TimingMethod
  | average
  | wcet
  | timer
  deriving DecidableEq, Repr

/-- The whole of `struct test_app_opts`. -/
structure TestAppOpts extends Options where
  outputFormat : OutputFormat
  timingMethod : TimingMethod
  priorityInheritance : Bool
  deadlockPrevention : Bool
  noRun : Bool
  deriving DecidableEq, Repr

/-- The locals of `main`, where a null pointer is `none`. -/
structure Locals where
  options : TestAppOpts
  schedName : Option (List Char)
  workloadName : Option (List Char)
  timingName : Option (List Char)
  deriving DecidableEq, Repr

def optstring : List Char := "c:e:f:i:l:r:s:t:w:bdghnopvxz".toList

/-- What `main` starts with. -/
def Locals.start : Locals where
  options :=
    { cpuUsage := 100, runTime := 1, scheduler := -1, tasksetFilename := none, workload := 0,
      enableHua := false, locking := NO_LOCKING, csLength := 0, batchMode := false, endUsage := 0,
      interval := 0, outputFormat := .log, timingMethod := .average, priorityInheritance := false,
      deadlockPrevention := false, noRun := false }
  schedName := none
  workloadName := none
  timingName := none

def atoi (a : List Char) : Int :=
  match scanLong a with
  | some w => toInt w.value
  | none => 0

/-- `get_integer`, which makes zero of the two numbers at the ends of the range. -/
def getInteger (a : List Char) : Int :=
  let i := atoi a
  if i = 2 ^ 31 - 1 ∨ i = -2 ^ 31 then 0 else i

/-- A round of the loop around `getopt`, or the messages before the usage. -/
def handle (l : Locals) : Opt → Except (List String) Locals
  | .flag 'b' => .ok { l with options.batchMode := true }
  | .arg 'c' optarg => .ok { l with options.cpuUsage := getInteger optarg }
  | .flag 'd' => .ok { l with options.deadlockPrevention := true }
  | .arg 'e' optarg => .ok { l with options.endUsage := getInteger optarg }
  | .arg 'f' optarg => .ok { l with options.tasksetFilename := some (String.ofList optarg) }
  | .flag 'g' => .ok { l with options.outputFormat := .gnuplot }
  | .flag 'h' => .ok { l with options.enableHua := true }
  | .arg 'i' optarg => .ok { l with options.interval := getInteger optarg }
  | .arg 'l' optarg => .ok
      { l with
        options.csLength := getInteger optarg
        options.locking := l.options.locking ||| LOCKING }
  | .flag 'n' => .ok { l with options.locking := l.options.locking ||| NESTED_LOCKING }
  | .flag 'o' => .ok { l with options.outputFormat := .log }
  | .flag 'p' => .ok { l with options.priorityInheritance := true }
  | .arg 'r' optarg => .ok { l with options.runTime := getInteger optarg }
  | .arg 's' optarg => .ok { l with schedName := some optarg }
  | .arg 't' optarg => .ok { l with timingName := some optarg }
  | .flag 'v' => .ok { l with options.outputFormat := .verbose }
  | .arg 'w' optarg => .ok { l with workloadName := some optarg }
  | .flag 'x' => .ok { l with options.outputFormat := .excel }
  | .flag 'z' => .ok { l with options.noRun := true }
  | .bad optopt => .error
      ((if optopt ∈ ['f', 'l', 's', 'c', 'r', 'w'] then
        ["Option -" ++ String.ofList [optopt] ++ " requires an argument."] else []) ++
        ["Invalid argument: '?'"])
  | .flag c | .arg c _ => .error ["Invalid argument: '" ++ String.ofList [c] ++ "'"]

/-- The names in `workloads`, in the order of their numbers. -/
def workloadNames : List (List Char) := [
  "burn_loop".toList,
  "array_walk".toList,
  "array_backwards".toList,
  "array_random".toList,
  "linked_list".toList,
  "bst".toList]

def findWorkload (workloadName : List Char) : Int :=
  match workloadNames.findIdx? (workloadName = ·) with
  | some i => i
  | none => -1

/-- The method of a name, where a null pointer stands for the default. -/
def findTiming : Option (List Char) → Option TimingMethod
  | none => some .timer
  | some name =>
    if name = "average".toList then some .average
    else if name = "wcet".toList then some .wcet
    else if name = "timer".toList then some .timer
    else none

/-- How `main` ends: with messages, the usage if they are about it, and an exit status; in
`fatal_error`; by a read outside a table; or in `run_test` with these options. -/
inductive MainEnd
  | exits (messages : List String) (usage : Bool) (status : Nat)
  | fatal (msg : String)
  | undefined
  | runTest (options : TestAppOpts)
  deriving DecidableEq, Repr

/-- The scheduler of its name, where there is no value if the search leaves the table. -/
def Locals.scheduler (l : Locals) : Option Int :=
  match l.schedName with
  | none => some l.options.scheduler
  | some name => (findScheduler name).map BitVec.toInt

def Locals.workload (l : Locals) : Int :=
  match l.workloadName with
  | some name => findWorkload name
  | none => 0

/-- The options that `validate_options` looks at. -/
def Locals.resolved (l : Locals) (scheduler : Int) (timingMethod : TimingMethod) : TestAppOpts :=
  { l.options with scheduler, workload := l.workload, timingMethod }

/-- From the end of the loop on. -/
def startTest (mlockall : Bool) (l : Locals) : MainEnd :=
  match l.scheduler with
  | none => .undefined
  | some scheduler =>
    match findTiming l.timingName with
    | none => .fatal "Timing method must be one of \"average\",\"wcet\", or \"timer\""
    | some timingMethod =>
      let o := l.resolved scheduler timingMethod
      let (errors, options) := validateOptions o.toOptions
      if errors ≠ [] then .exits errors true 1
      else if !mlockall then
        .exits ["Error: Unable to lock the memory space.",
          "Make sure you are running with sudo or root."] false 1
      else .runTest { o with toOptions := options }

/-- `main`; `mlockall` says whether the memory can be locked. -/
def main (mlockall : Bool) (argv : List (List Char)) : MainEnd :=
  if argv.length < 8 then
    .exits ["Error: Provide the scheduler, cpu usage, runtime and taskset filename."] true 0
  else
    let (opts, operands) := getopt (wantsArg optstring) none argv.tail
    match opts.foldlM handle .start with
    | .error messages => .exits messages true 0
    | .ok l =>
      if operands ≠ [] then .exits ["An option was used without the preceeding '-'"] true 0
      else startTest mlockall l

/-! ## What the letters say -/

/-- The last argument of a letter. -/
def lastArg (os : List Opt) (c : Char) : Option (List Char) :=
  os.reverse.findSome? fun
    | .arg d optarg => if d = c then some optarg else none
    | _ => none

/-- The number that a letter gives, or the one `main` starts with. -/
def lastInteger (os : List Opt) (c : Char) (default : Int) : Int :=
  ((lastArg os c).map getInteger).getD default

/-- The format that a letter selects. -/
def formatOf : Opt → Option OutputFormat
  | .flag 'o' => some .log
  | .flag 'x' => some .excel
  | .flag 'g' => some .gnuplot
  | .flag 'v' => some .verbose
  | _ => none

def lastFormat (os : List Opt) : OutputFormat := (os.reverse.findSome? formatOf).getD .log

/-- What the loop has made of options. -/
def Locals.after (os : List Opt) : Locals where
  options :=
    { cpuUsage := lastInteger os 'c' 100
      runTime := lastInteger os 'r' 1
      scheduler := -1
      tasksetFilename := (lastArg os 'f').map String.ofList
      workload := 0
      enableHua := decide (.flag 'h' ∈ os)
      locking := (if (lastArg os 'l').isSome then LOCKING else 0) |||
        if .flag 'n' ∈ os then NESTED_LOCKING else 0
      csLength := lastInteger os 'l' 0
      batchMode := decide (.flag 'b' ∈ os)
      endUsage := lastInteger os 'e' 0
      interval := lastInteger os 'i' 0
      outputFormat := lastFormat os
      timingMethod := .average
      priorityInheritance := decide (.flag 'p' ∈ os)
      deadlockPrevention := decide (.flag 'd' ∈ os)
      noRun := decide (.flag 'z' ∈ os) }
  schedName := lastArg os 's'
  workloadName := lastArg os 'w'
  timingName := lastArg os 't'

/-- An option that the `optstring` has. -/
def Known : Opt → Prop
  | .flag c => c ∈ ['b', 'd', 'g', 'h', 'n', 'o', 'p', 'v', 'x', 'z']
  | .arg c _ => c ∈ ['c', 'e', 'f', 'i', 'l', 'r', 's', 't', 'w']
  | .bad _ => False

section

variable {os : List Opt} {o : Opt}

theorem lastArg_append_flag (os : List Opt) (c d : Char) :
    lastArg (os ++ [.flag c]) d = lastArg os d := by
  simp [lastArg]

theorem lastArg_append_arg (os : List Opt) (c d : Char) (optarg : List Char) :
    lastArg (os ++ [.arg c optarg]) d = if c = d then some optarg else lastArg os d := by
  by_cases h : c = d <;> simp [lastArg, h]

theorem lastFormat_append (os : List Opt) (o : Opt) :
    lastFormat (os ++ [o]) = (formatOf o).getD (lastFormat os) := by
  cases h : formatOf o <;> simp [lastFormat, h]

/-- A round of the loop takes one option more into account. -/
theorem handle_after (h : Known o) :
    handle (.after os) o = .ok (.after (os ++ [o])) := by
  cases o with
  | bad c => exact h.elim
  | flag c =>
    simp only [Known, List.mem_cons, List.not_mem_nil, or_false] at h
    rcases h with rfl | rfl | rfl | rfl | rfl | rfl | rfl | rfl | rfl | rfl <;>
      simp [handle, Locals.after, lastInteger, lastArg_append_flag, lastFormat_append, formatOf]
    split <;> split <;> rfl
  | arg c optarg =>
    simp only [Known, List.mem_cons, List.not_mem_nil, or_false] at h
    rcases h with rfl | rfl | rfl | rfl | rfl | rfl | rfl | rfl | rfl <;>
      simp [handle, Locals.after, lastInteger, lastArg_append_arg, lastFormat_append, formatOf]
    split <;> split <;> rfl

theorem known_of_handle {l l' : Locals} (h : handle l o = .ok l') : Known o := by
  unfold handle at h
  split at h <;> first | (simp [Known]; done) | cases h

theorem foldlM_handle (h : ∀ o ∈ os, Known o) :
    os.foldlM handle .start = .ok (.after os) := by
  induction os using List.reverseRecOn with
  | nil => rfl
  | append_singleton os o ih =>
    have ho : handle (.after os) o = .ok (.after (os ++ [o])) := handle_after (h o (by simp))
    rw [List.foldlM_append, ih fun p hp => h p (List.mem_append_left _ hp)]
    change [o].foldlM handle (.after os) = _
    rw [List.foldlM_cons, ho]
    rfl

theorem known_of_foldlM {l l' : Locals} (h : os.foldlM handle l = .ok l') :
    ∀ o ∈ os, Known o := by
  induction os generalizing l with
  | nil => simp
  | cons o os ih =>
    cases ho : handle l o with
    | error messages =>
      rw [List.foldlM_cons, ho] at h
      cases h
    | ok l₁ =>
      rw [List.foldlM_cons, ho] at h
      exact List.forall_mem_cons.mpr ⟨known_of_handle ho, ih h⟩

/-- The letters of the `optstring` are those that the loop knows. -/
theorem known_of_wantsArg (c : Char) :
    (wantsArg optstring c = some false → Known (.flag c)) ∧
      ∀ optarg, wantsArg optstring c = some true → Known (.arg c optarg) := by
  have hall : optstring.all fun c =>
      (wantsArg optstring c ≠ some false ∨
        c ∈ ['b', 'd', 'g', 'h', 'n', 'o', 'p', 'v', 'x', 'z']) ∧
      (wantsArg optstring c ≠ some true ∨
        c ∈ ['c', 'e', 'f', 'i', 'l', 'r', 's', 't', 'w']) := by
    decide
  have hc {b : Bool} (h : wantsArg optstring c = some b) :=
    of_decide_eq_true (List.all_eq_true.mp hall c (mem_of_wantsArg h))
  exact ⟨fun h => (hc h).1.resolve_left (not_not.mpr h),
    fun _ h => (hc h).2.resolve_left (not_not.mpr h)⟩

theorem known_of_reads {words : List (List Char)} (h : Reads (wantsArg optstring) words os) :
    ∀ o ∈ os, Known o := by
  obtain ⟨ws, words', harranges, -⟩ := h
  exact harranges.forall_opts (fun c => (known_of_wantsArg c).1)
    fun c optarg => (known_of_wantsArg c).2 optarg

theorem Known.not_bad (h : ∀ o ∈ os, Known o) (c : Char) : Opt.bad c ∉ os := fun hc => h _ hc

/-- The loop goes through and leaves no operand exactly on an arrangement. -/
theorem parse_eq_iff {words : List (List Char)} {l : Locals} :
    (getopt (wantsArg optstring) none words).2 = [] ∧
        (getopt (wantsArg optstring) none words).1.foldlM handle .start = .ok l ↔
      ∃ os, Reads (wantsArg optstring) words os ∧ l = .after os := by
  have hdash : wantsArg optstring '-' = none := by decide
  constructor
  · rintro ⟨hops, hfold⟩
    have hknown := known_of_foldlM hfold
    rw [foldlM_handle hknown, Except.ok.injEq] at hfold
    exact ⟨_, (getopt_eq_iff hdash (Known.not_bad hknown)).mp (Prod.ext rfl hops), hfold.symm⟩
  · rintro ⟨os, hreads, rfl⟩
    have hknown := known_of_reads hreads
    rw [(getopt_eq_iff hdash (Known.not_bad hknown)).mpr hreads]
    exact ⟨rfl, foldlM_handle hknown⟩

end

/-! ## What is accepted -/

/-- What the last occurrences of the letters ask for, and what `run_test` is given for it. -/
structure Requests (os : List Opt) (o : TestAppOpts) : Prop where
  scheduler : ∃ a ∈ algorithms, lastArg os 's' = some a.name ∧ o.scheduler = a.mask.toInt
  workload : ∃ i : Nat, workloadNames[i]? = some ((lastArg os 'w').getD "burn_loop".toList) ∧
    o.workload = i
  timingMethod : findTiming (lastArg os 't') = some o.timingMethod
  tasksetFilename : ∃ file, lastArg os 'f' = some file ∧
    o.tasksetFilename = some (String.ofList file)
  cpuUsage : o.cpuUsage = lastInteger os 'c' 100 ∧ 1 ≤ o.cpuUsage ∧ o.cpuUsage ≤ 10000
  runTime : o.runTime = lastInteger os 'r' 1 ∧ 1 ≤ o.runTime ∧ o.runTime ≤ 3600
  outputFormat : o.outputFormat = lastFormat os
  priorityInheritance : o.priorityInheritance ↔ .flag 'p' ∈ os
  enableHua : o.enableHua ↔ .flag 'h' ∈ os
  deadlockPrevention : o.deadlockPrevention ↔ .flag 'd' ∈ os
  noRun : o.noRun ↔ .flag 'z' ∈ os
  locking : o.locking = if .flag 'n' ∈ os then NESTED_LOCKING
    else if (lastArg os 'l').isSome then LOCKING else NO_LOCKING
  csLength : o.csLength = lastInteger os 'l' 0 ∧ o.csLength ≤ 100 ∧
    (o.locking ≠ NO_LOCKING → 1 ≤ o.csLength)
  batchMode : o.batchMode ↔ .flag 'b' ∈ os
  batch : if o.batchMode then
      o.endUsage = lastInteger os 'e' 0 ∧ o.interval = lastInteger os 'i' 0 ∧
        o.interval ≠ 0 ∧ o.cpuUsage ≤ o.endUsage
    else o.endUsage = o.cpuUsage ∧ o.interval = 1

theorem accepted_iff (o : Options) :
    o.Accepted ↔ (o.tasksetFilename ≠ none ∧ o.scheduler ≠ -1) ∧ 0 ≤ o.workload ∧
      (o.batchMode → o.interval ≠ 0 ∧ o.cpuUsage ≤ o.endUsage) ∧
      (1 ≤ o.cpuUsage ∧ o.cpuUsage ≤ 10000) ∧ (1 ≤ o.runTime ∧ o.runTime ≤ 3600) ∧
      o.csLength ≤ 100 ∧ (o.locking &&& LOCKING ≠ 0 → 1 ≤ o.csLength) := by
  simp only [Options.Accepted, validateOptions, List.append_eq_nil_iff, ite_eq_right_iff,
    List.cons_ne_nil, imp_false, not_or, not_and, not_le, not_lt]
  constructor
  · rintro ⟨⟨⟨⟨⟨⟨⟨hf, hs, -, -⟩, hw⟩, hb⟩, he⟩, hc⟩, hr⟩, hl⟩
    exact ⟨⟨hf, hs⟩, hw, fun h => ⟨(hb h).2, he h⟩, hc, hr, hl.2, fun h => by_contra fun hcs =>
      hl.1 (by omega) h⟩
  · rintro ⟨⟨hf, hs⟩, hw, hb, hc, hr, hl, hcs⟩
    have hend (h : o.batchMode = true) : o.endUsage ≠ 0 := by
      have := (hb h).2
      omega
    exact ⟨⟨⟨⟨⟨⟨⟨hf, hs, by omega, by omega⟩, hw⟩, fun h => ⟨hend h, (hb h).1⟩⟩,
      fun h => (hb h).2⟩, hc⟩, hr⟩, fun h hlock => absurd (hcs hlock) (by omega), hl⟩

theorem findScheduler_eq_some {name : List Char} {mask : BitVec 32} :
    findScheduler name = some mask ↔ ∃ a ∈ algorithms, name = a.name ∧ mask = a.mask := by
  rw [findScheduler_eq, Option.map_eq_some_iff]
  constructor
  · rintro ⟨a, hfound, rfl⟩
    have hname := List.find?_some hfound
    exact ⟨a, List.mem_of_find?_eq_some hfound, of_decide_eq_true hname, rfl⟩
  · rintro ⟨a, ha, rfl, rfl⟩
    exact ⟨a, (find?_algorithms ha).1, rfl⟩

theorem findWorkload_eq_natCast {name : List Char} {i : Nat} :
    findWorkload name = i ↔ workloadNames[i]? = some name := by
  constructor
  · intro h
    rw [findWorkload] at h
    cases hfound : workloadNames.findIdx? (name = ·) with
    | none =>
      rw [hfound] at h
      simp at h
    | some j =>
      rw [hfound] at h
      obtain rfl : j = i := by simpa using h
      obtain ⟨hj, hname, -⟩ := List.findIdx?_eq_some_iff_getElem.mp hfound
      rw [List.getElem?_eq_getElem hj, of_decide_eq_true hname]
  · intro h
    obtain ⟨hi, rfl⟩ := List.getElem?_eq_some_iff.mp h
    have hall : ∀ i : Fin workloadNames.length, findWorkload (workloadNames.get i) = (i : Nat) := by
      decide
    exact hall ⟨i, hi⟩

theorem startTest_eq_runTest_iff {l : Locals} {o : TestAppOpts} :
    startTest true l = .runTest o ↔ ∃ scheduler timingMethod, l.scheduler = some scheduler ∧
      findTiming l.timingName = some timingMethod ∧
      (l.resolved scheduler timingMethod).toOptions.Accepted ∧
      o = { l.resolved scheduler timingMethod with
        toOptions := (validateOptions (l.resolved scheduler timingMethod).toOptions).2 } := by
  unfold startTest
  cases hs : l.scheduler with
  | none => simp
  | some scheduler =>
    cases ht : findTiming l.timingName with
    | none => simp
    | some timingMethod =>
      by_cases hacc : (l.resolved scheduler timingMethod).toOptions.Accepted
      · have herr : ¬(validateOptions (l.resolved scheduler timingMethod).toOptions).1 ≠ [] :=
          not_not.mpr hacc
        simp [herr, hacc, eq_comm]
      · have herr : (validateOptions (l.resolved scheduler timingMethod).toOptions).1 ≠ [] := hacc
        simp [herr, hacc]

theorem scheduler_after {os : List Opt} {scheduler : Int} (hne : scheduler ≠ -1) :
    (Locals.after os).scheduler = some scheduler ↔
      ∃ a ∈ algorithms, lastArg os 's' = some a.name ∧ scheduler = a.mask.toInt := by
  have hname : (Locals.after os).schedName = lastArg os 's' := rfl
  rw [Locals.scheduler, hname]
  cases hs : lastArg os 's' with
  | none => simpa [Locals.after] using hne.symm
  | some name =>
    simp only [Option.map_eq_some_iff, findScheduler_eq_some, Option.some_inj]
    constructor
    · rintro ⟨mask, ⟨a, ha, hname, rfl⟩, rfl⟩
      exact ⟨a, ha, hname, rfl⟩
    · rintro ⟨a, ha, hname, rfl⟩
      exact ⟨a.mask, ⟨a, ha, hname, rfl⟩, rfl⟩

theorem workload_after {os : List Opt} {workload : Int} :
    (Locals.after os).workload = workload ∧ 0 ≤ workload ↔
      ∃ i : Nat, workloadNames[i]? = some ((lastArg os 'w').getD "burn_loop".toList) ∧
        workload = i := by
  have hname : (Locals.after os).workloadName = lastArg os 'w' := rfl
  have hfind : (Locals.after os).workload =
      findWorkload ((lastArg os 'w').getD "burn_loop".toList) := by
    rw [Locals.workload, hname]
    cases lastArg os 'w' <;> rfl
  rw [hfind]
  constructor
  · rintro ⟨rfl, hw⟩
    obtain ⟨i, hi⟩ := Int.eq_ofNat_of_zero_le hw
    exact ⟨i, findWorkload_eq_natCast.mp hi, hi⟩
  · rintro ⟨i, hi, rfl⟩
    exact ⟨findWorkload_eq_natCast.mpr hi, Int.natCast_nonneg i⟩

theorem validateOptions_snd (o : Options) :
    (validateOptions o).2 = { o with
      endUsage := if o.batchMode then o.endUsage else o.cpuUsage
      interval := if o.batchMode then o.interval else 1 } := by
  obtain ⟨_, _, _, _, _, _, _, _, batchMode, _, _⟩ := o
  cases batchMode <;> rfl

theorem eq_decide {b : Bool} {p : Prop} [Decidable p] (h : b = true ↔ p) : b = decide p := by
  rw [Bool.eq_iff_iff, h, decide_eq_true_iff]

theorem toInt_mask_ne {a : Algorithm} (ha : a ∈ algorithms) : a.mask.toInt ≠ -1 := by
  revert a
  decide

theorem locking_after (os : List Opt) :
    (Locals.after os).options.locking = (if .flag 'n' ∈ os then NESTED_LOCKING
      else if (lastArg os 'l').isSome then LOCKING else NO_LOCKING) := by
  simp only [Locals.after]
  split <;> split <;> rfl

/-- With locking on, in either way, the lowest bit is set. -/
theorem locking_after_and (os : List Opt) :
    (Locals.after os).options.locking &&& LOCKING ≠ 0 ↔
      (Locals.after os).options.locking ≠ NO_LOCKING := by
  rw [locking_after]
  split
  · decide
  · split <;> decide

theorem startTest_after_iff {os : List Opt} {o : TestAppOpts} :
    startTest true (.after os) = .runTest o ↔ Requests os o := by
  rw [startTest_eq_runTest_iff]
  constructor
  · rintro ⟨scheduler, timingMethod, hs, ht, hacc, rfl⟩
    rw [accepted_iff] at hacc
    obtain ⟨⟨hf, hsched⟩, hw, hb, hc, hr, hl, hcs⟩ := hacc
    rw [validateOptions_snd]
    obtain ⟨_, hfilename⟩ := Option.ne_none_iff_exists'.mp hf
    obtain ⟨file, hfile, rfl⟩ := Option.map_eq_some_iff.mp hfilename
    exact {
      scheduler := (scheduler_after hsched).mp hs
      workload := workload_after.mp ⟨rfl, hw⟩
      timingMethod := ht
      tasksetFilename := ⟨file, hfile, hfilename⟩
      cpuUsage := ⟨rfl, hc⟩
      runTime := ⟨rfl, hr⟩
      outputFormat := rfl
      priorityInheritance := decide_eq_true_iff
      enableHua := decide_eq_true_iff
      deadlockPrevention := decide_eq_true_iff
      noRun := decide_eq_true_iff
      locking := locking_after os
      csLength := ⟨rfl, hl, fun h => hcs ((locking_after_and os).mpr h)⟩
      batchMode := decide_eq_true_iff
      batch := by
        dsimp only
        split
        · next h => exact ⟨rfl, rfl, hb h⟩
        · exact ⟨rfl, rfl⟩ }
  · intro h
    obtain ⟨a, ha, hname, hmask⟩ := h.scheduler
    have hsched : o.scheduler ≠ -1 := hmask ▸ toInt_mask_ne ha
    obtain ⟨hworkload, hw⟩ := workload_after.mpr h.workload
    obtain ⟨file, hfile, hfilename⟩ := h.tasksetFilename
    have hbatch := eq_decide h.batchMode
    have hcases := h.batch
    have hresolved : (Locals.after os).resolved o.scheduler o.timingMethod = { o with
        endUsage := lastInteger os 'e' 0
        interval := lastInteger os 'i' 0 } := by
      have hfiles : (lastArg os 'f').map String.ofList = o.tasksetFilename := by
        rw [hfile, hfilename]
        rfl
      simp only [Locals.resolved, TestAppOpts.mk.injEq, Options.mk.injEq]
      exact ⟨⟨h.cpuUsage.1.symm, h.runTime.1.symm, trivial, hfiles, hworkload,
        (eq_decide h.enableHua).symm, (locking_after os).trans h.locking.symm, h.csLength.1.symm,
        hbatch.symm, rfl, rfl⟩, h.outputFormat.symm, trivial,
        (eq_decide h.priorityInheritance).symm, (eq_decide h.deadlockPrevention).symm,
        (eq_decide h.noRun).symm⟩
    have hlock : o.locking &&& LOCKING ≠ 0 ↔ o.locking ≠ NO_LOCKING := by
      rw [h.locking, ← locking_after]
      exact locking_after_and os
    refine ⟨o.scheduler, o.timingMethod, (scheduler_after hsched).mpr h.scheduler, h.timingMethod,
      ?_, ?_⟩
    · rw [hresolved, accepted_iff]
      refine ⟨⟨by simp [hfilename], hsched⟩, hw, fun hb => ?_, h.cpuUsage.2, h.runTime.2,
        h.csLength.2.1, fun h' => h.csLength.2.2 (hlock.mp h')⟩
      rw [if_pos hb] at hcases
      exact ⟨hcases.2.1 ▸ hcases.2.2.1, hcases.1 ▸ hcases.2.2.2⟩
    · rw [hresolved, validateOptions_snd]
      obtain ⟨hend, hinterval⟩ :
          (if o.batchMode then lastInteger os 'e' 0 else o.cpuUsage) = o.endUsage ∧
            (if o.batchMode then lastInteger os 'i' 0 else 1) = o.interval := by
        split at hcases
        · next hb =>
          rw [if_pos hb, if_pos hb]
          exact ⟨hcases.1.symm, hcases.2.1.symm⟩
        · next hb =>
          rw [if_neg hb, if_neg hb]
          exact ⟨hcases.1.symm, hcases.2.symm⟩
      dsimp only
      rw [hend, hinterval]

theorem main_of_le {argv : List (List Char)} (h : 8 ≤ argv.length) (o : TestAppOpts) :
    main true argv = .runTest o ↔
      ∃ os, Reads (wantsArg optstring) argv.tail os ∧ Requests os o := by
  rw [main, if_neg (not_lt.mpr h)]
  constructor
  · intro hmain
    cases hfold : (getopt (wantsArg optstring) none argv.tail).1.foldlM handle .start with
    | error messages => simp [hfold] at hmain
    | ok l =>
      by_cases hops : (getopt (wantsArg optstring) none argv.tail).2 = []
      · obtain ⟨os, hreads, rfl⟩ := parse_eq_iff.mp ⟨hops, hfold⟩
        refine ⟨os, hreads, startTest_after_iff.mp ?_⟩
        simpa [hfold, hops] using hmain
      · simp [hfold, hops] at hmain
  · rintro ⟨os, hreads, hrequests⟩
    obtain ⟨hops, hfold⟩ := parse_eq_iff.mpr ⟨os, hreads, rfl⟩
    simpa [hfold, hops] using startTest_after_iff.mpr hrequests

/-- **Which command lines run a test**, and with which options: those of at least seven words
behind the name that put options into words, perhaps with `--` at the end, where the last
occurrence of each letter says what is asked for. -/
theorem main_runTest_iff (argv : List (List Char)) (o : TestAppOpts) :
    main true argv = .runTest o ↔ 8 ≤ argv.length ∧
      ∃ os, Reads (wantsArg optstring) argv.tail os ∧ Requests os o := by
  by_cases hlong : 8 ≤ argv.length
  · rw [main_of_le hlong, and_iff_right hlong]
  · rw [main, if_pos (not_le.mp hlong)]
    simp [hlong]

end Chronos.Run
