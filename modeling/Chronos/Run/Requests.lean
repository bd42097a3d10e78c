import Chronos.Run.CommandLine

/-!
# Asking for a test

A request is a test that the command line can ask for. Its options may stand in any order and
be put into words in any way: `main` reads the request back. And it runs no other tests.
-/

namespace Chronos.Run

open Lib

/-- The numbers that `get_integer` can give. -/
def IsInteger (i : Int) : Prop := -2 ^ 31 < i ∧ i < 2 ^ 31 - 1

instance (i : Int) : Decidable (IsInteger i) := inferInstanceAs (Decidable (_ ∧ _))

/-- A test that can be asked for. Locking may be nested and has the length of a critical
section, and a batch has its last usage and the interval. -/
structure Request where
  algorithm : Algorithm
  algorithm_mem : algorithm ∈ algorithms
  file : List Char
  cpuUsage : Int
  cpuUsage_mem : 1 ≤ cpuUsage ∧ cpuUsage ≤ 10000
  runTime : Int
  runTime_mem : 1 ≤ runTime ∧ runTime ≤ 3600
  workload : Fin workloadNames.length
  timingMethod : TimingMethod
  outputFormat : OutputFormat
  priorityInheritance : Bool
  enableHua : Bool
  deadlockPrevention : Bool
  noRun : Bool
  locking : Option (Bool × Int)
  locking_mem : ∀ l ∈ locking, 1 ≤ l.2 ∧ l.2 ≤ 100
  batch : Option (Int × Int)
  batch_mem : ∀ b ∈ batch, cpuUsage ≤ b.1 ∧ IsInteger b.1 ∧ b.2 ≠ 0 ∧ IsInteger b.2

def TimingMethod.name : TimingMethod → List Char
  | average => "average".toList
  | wcet => "wcet".toList
  | timer => "timer".toList

def OutputFormat.letter : OutputFormat → Char
  | log => 'o'
  | excel => 'x'
  | gnuplot => 'g'
  | verbose => 'v'

namespace Request

variable (r : Request)

/-- The argument that a letter has, if it has one. -/
def arg : Char → Option (List Char)
  | 's' => some r.algorithm.name
  | 'f' => some r.file
  | 'c' => some (numeral r.cpuUsage)
  | 'r' => some (numeral r.runTime)
  | 'w' => some (workloadNames.get r.workload)
  | 't' => some r.timingMethod.name
  | 'l' => r.locking.map fun l => numeral l.2
  | 'e' => r.batch.map fun b => numeral b.1
  | 'i' => r.batch.map fun b => numeral b.2
  | _ => none

/-- Whether there is a letter without an argument. -/
def flag : Char → Bool
  | 'p' => r.priorityInheritance
  | 'h' => r.enableHua
  | 'd' => r.deadlockPrevention
  | 'z' => r.noRun
  | 'n' => r.locking.any (·.1)
  | 'b' => r.batch.isSome
  | c => c = r.outputFormat.letter

/-- The options of the request. -/
def opts : List Opt :=
  (['s', 'f', 'c', 'r', 'w', 't', 'l', 'e', 'i'].filterMap fun c => (r.arg c).map (.arg c)) ++
    (['p', 'h', 'd', 'z', 'n', 'b', 'o', 'x', 'g', 'v'].filter r.flag).map .flag

/-- What `run_test` is to be given. -/
def options : TestAppOpts where
  cpuUsage := r.cpuUsage
  runTime := r.runTime
  scheduler := r.algorithm.mask.toInt
  tasksetFilename := some (String.ofList r.file)
  workload := (r.workload : Nat)
  enableHua := r.enableHua
  locking := match r.locking with
    | none => NO_LOCKING
    | some (nested, _) => if nested then NESTED_LOCKING else LOCKING
  csLength := match r.locking with
    | none => 0
    | some (_, csLength) => csLength
  batchMode := r.batch.isSome
  endUsage := match r.batch with
    | none => r.cpuUsage
    | some (endUsage, _) => endUsage
  interval := match r.batch with
    | none => 1
    | some (_, interval) => interval
  outputFormat := r.outputFormat
  timingMethod := r.timingMethod
  priorityInheritance := r.priorityInheritance
  deadlockPrevention := r.deadlockPrevention
  noRun := r.noRun

end Request

/-! ## Numbers -/

theorem getInteger_numeral {i : Int} (h : IsInteger i) : getInteger (numeral i) = i := by
  have hscan : scanLong ([] ++ (numeral i ++ [])) = some ⟨[], numeral i, saturate i, []⟩ :=
    scanLong_append i (by simp) (by simp)
  rw [List.nil_append, List.append_nil] at hscan
  obtain ⟨hlow, hhigh⟩ := h
  have hvalue : atoi (numeral i) = i := by
    rw [atoi, hscan]
    dsimp only
    rw [saturate_eq_self (by omega) (by omega), toInt_eq_self (by omega) (by omega)]
  rw [getInteger, hvalue]
  exact if_neg (by omega)

theorem isInteger_getInteger (a : List Char) : IsInteger (getInteger a) := by
  have hrange : -2 ^ 31 ≤ atoi a ∧ atoi a < 2 ^ 31 := by
    unfold atoi
    split
    · next w _ =>
      have hlow := Int.le_bmod (x := w.value) (m := 2 ^ 32) (by norm_num)
      have hhigh := Int.bmod_lt (x := w.value) (m := 2 ^ 32) (by norm_num)
      exact ⟨by unfold toInt; omega, by unfold toInt; omega⟩
    · norm_num
  unfold getInteger IsInteger
  dsimp only
  split <;> omega

theorem isInteger_lastInteger (os : List Opt) (c : Char) {default : Int}
    (h : IsInteger default) : IsInteger (lastInteger os c default) := by
  unfold lastInteger
  cases lastArg os c with
  | none => exact h
  | some a => exact isInteger_getInteger a

/-! ## Options in any order -/

section

variable {os : List Opt} {c : Char} {a : List Char}

theorem mem_of_lastArg (h : lastArg os c = some a) : .arg c a ∈ os := by
  obtain ⟨o, ho, hsome⟩ := List.exists_of_findSome?_eq_some h
  cases o with
  | arg d optarg =>
    dsimp only at hsome
    split at hsome
    · next hd =>
      obtain rfl := Option.some.inj hsome
      exact hd ▸ List.mem_reverse.mp ho
    · cases hsome
  | flag d => cases hsome
  | bad d => cases hsome

/-- A letter that occurs with one argument only has that one. -/
theorem lastArg_eq_of_mem {x : Option (List Char)} (h : ∀ a, .arg c a ∈ os ↔ x = some a) :
    lastArg os c = x := by
  cases hlast : lastArg os c with
  | some a => exact ((h a).mp (mem_of_lastArg hlast)).symm
  | none =>
    cases x with
    | none => rfl
    | some a =>
      have hmem := List.mem_reverse.mpr ((h a).mpr rfl)
      have hnone := List.findSome?_eq_none_iff.mp hlast _ hmem
      simp at hnone

theorem formatOf_eq_some {o : Opt} {f : OutputFormat} :
    formatOf o = some f ↔ o = .flag f.letter := by
  constructor
  · intro h
    unfold formatOf at h
    split at h <;> first | cases h; rfl | cases h
  · rintro rfl
    cases f <;> rfl

/-- So does the only format. -/
theorem lastFormat_eq_of_mem {f : OutputFormat}
    (h : ∀ g : OutputFormat, .flag g.letter ∈ os ↔ g = f) : lastFormat os = f := by
  unfold lastFormat
  cases hlast : os.reverse.findSome? formatOf with
  | some g =>
    obtain ⟨o, ho, hsome⟩ := List.exists_of_findSome?_eq_some hlast
    rw [formatOf_eq_some.mp hsome, List.mem_reverse] at ho
    exact (h g).mp ho
  | none =>
    have hnone := List.findSome?_eq_none_iff.mp hlast _ (List.mem_reverse.mpr ((h f).mpr rfl))
    rw [formatOf_eq_some.mpr rfl] at hnone
    cases hnone

variable (r : Request)

theorem Request.mem_opts_arg (c : Char) (a : List Char) :
    .arg c a ∈ r.opts ↔ c ∈ ['s', 'f', 'c', 'r', 'w', 't', 'l', 'e', 'i'] ∧ r.arg c = some a := by
  unfold Request.opts
  constructor
  · intro h
    rcases List.mem_append.mp h with h | h
    · obtain ⟨d, hd, hsome⟩ := List.mem_filterMap.mp h
      obtain ⟨b, hb, heq⟩ := Option.map_eq_some_iff.mp hsome
      cases heq
      exact ⟨hd, hb⟩
    · obtain ⟨d, -, heq⟩ := List.mem_map.mp h
      cases heq
  · rintro ⟨hc, ha⟩
    exact List.mem_append_left _ (List.mem_filterMap.mpr ⟨c, hc, by rw [ha]; rfl⟩)

theorem Request.mem_opts_flag (c : Char) :
    .flag c ∈ r.opts ↔ c ∈ ['p', 'h', 'd', 'z', 'n', 'b', 'o', 'x', 'g', 'v'] ∧ r.flag c := by
  unfold Request.opts
  constructor
  · intro h
    rcases List.mem_append.mp h with h | h
    · obtain ⟨d, -, hsome⟩ := List.mem_filterMap.mp h
      obtain ⟨b, -, heq⟩ := Option.map_eq_some_iff.mp hsome
      cases heq
    · obtain ⟨d, hd, heq⟩ := List.mem_map.mp h
      cases heq
      exact List.mem_filter.mp hd
  · intro h
    exact List.mem_append_right _ (List.mem_map.mpr ⟨c, List.mem_filter.mpr h, rfl⟩)

theorem findTiming_name (t : TimingMethod) : findTiming (some t.name) = some t := by
  cases t <;> rfl

theorem Request.flag_letter (g : OutputFormat) :
    r.flag g.letter = true ↔ g = r.outputFormat := by
  have hflag : r.flag g.letter = decide (g.letter = r.outputFormat.letter) := by
    cases g <;> rfl
  rw [hflag, decide_eq_true_iff]
  constructor
  · cases g <;> cases r.outputFormat <;> simp [OutputFormat.letter]
  · exact congrArg _

/-- The options of a request ask for it, in any order. -/
theorem Request.requests (h : os.Perm r.opts) : Requests os r.options := by
  have harg : ∀ c ∈ ['s', 'f', 'c', 'r', 'w', 't', 'l', 'e', 'i'], lastArg os c = r.arg c :=
    fun c hc => lastArg_eq_of_mem fun a => by rw [h.mem_iff, r.mem_opts_arg]; exact and_iff_right hc
  have hflag : ∀ c ∈ ['p', 'h', 'd', 'z', 'n', 'b', 'o', 'x', 'g', 'v'],
      .flag c ∈ os ↔ r.flag c = true :=
    fun c hc => by rw [h.mem_iff, r.mem_opts_flag]; exact and_iff_right hc
  have hinteger : ∀ (c : Char) (default i : Int),
      c ∈ ['s', 'f', 'c', 'r', 'w', 't', 'l', 'e', 'i'] → r.arg c = some (numeral i) →
      IsInteger i → lastInteger os c default = i := by
    intro c default i hc hi hint
    rw [lastInteger, harg c hc, hi]
    exact getInteger_numeral hint
  have hcpu := r.cpuUsage_mem
  have hrun := r.runTime_mem
  constructor
  case scheduler => exact ⟨r.algorithm, r.algorithm_mem, harg 's' (by decide), rfl⟩
  case workload =>
    refine ⟨r.workload, ?_, rfl⟩
    rw [harg 'w' (by decide)]
    exact List.getElem?_eq_getElem r.workload.isLt
  case timingMethod =>
    rw [harg 't' (by decide)]
    exact findTiming_name r.timingMethod
  case tasksetFilename => exact ⟨r.file, harg 'f' (by decide), rfl⟩
  case cpuUsage => exact
    ⟨(hinteger 'c' 100 r.cpuUsage (by decide) rfl ⟨by omega, by omega⟩).symm, hcpu⟩
  case runTime => exact
    ⟨(hinteger 'r' 1 r.runTime (by decide) rfl ⟨by omega, by omega⟩).symm, hrun⟩
  case outputFormat =>
    refine (lastFormat_eq_of_mem fun g => (hflag g.letter ?_).trans (r.flag_letter g)).symm
    cases g <;> decide
  case priorityInheritance => exact (hflag 'p' (by decide)).symm
  case enableHua => exact (hflag 'h' (by decide)).symm
  case deadlockPrevention => exact (hflag 'd' (by decide)).symm
  case noRun => exact (hflag 'z' (by decide)).symm
  case locking =>
    simp only [hflag 'n' (by decide), harg 'l' (by decide), Request.flag, Request.arg,
      Request.options]
    rcases r.locking with _ | ⟨nested, csLength⟩
    · rfl
    · cases nested <;> rfl
  case csLength =>
    cases hlock : r.locking with
    | none =>
      have hl : lastArg os 'l' = none := by rw [harg 'l' (by decide), Request.arg, hlock]; rfl
      simp [Request.options, lastInteger, hlock, hl]
    | some l =>
      obtain ⟨hpos, hle⟩ := r.locking_mem l hlock
      have hl := hinteger 'l' 0 l.2 (by decide) (by rw [Request.arg, hlock]; rfl)
        ⟨by omega, by omega⟩
      simp [Request.options, hlock, hl, hpos, hle]
  case batchMode => exact (hflag 'b' (by decide)).symm
  case batch =>
    cases hbatch : r.batch with
    | none => simp [Request.options, hbatch]
    | some b =>
      obtain ⟨hle, hend, hne, hinterval⟩ := r.batch_mem b hbatch
      have he := hinteger 'e' 0 b.1 (by decide) (by rw [Request.arg, hbatch]; rfl) hend
      have hi := hinteger 'i' 0 b.2 (by decide) (by rw [Request.arg, hbatch]; rfl) hinterval
      simp [Request.options, hbatch, he, hi, hle, hne]

end

/-! ## The requests are all -/

/-- The locking of options, as a request has it. -/
def requestedLocking (o : TestAppOpts) : Option (Bool × Int) :=
  if o.locking = NO_LOCKING then none else some (o.locking = NESTED_LOCKING, o.csLength)

def requestedBatch (o : TestAppOpts) : Option (Int × Int) :=
  if o.batchMode then some (o.endUsage, o.interval) else none

section

variable {os : List Opt} {o : TestAppOpts} (h : Requests os o)

include h

theorem Requests.locking_mem : ∀ l ∈ requestedLocking o, 1 ≤ l.2 ∧ l.2 ≤ 100 := by
  intro l hl
  rw [requestedLocking, Option.mem_def] at hl
  split at hl
  · cases hl
  · next hon =>
    cases hl
    exact ⟨h.csLength.2.2 hon, h.csLength.2.1⟩

theorem Requests.batch_mem : ∀ b ∈ requestedBatch o,
    o.cpuUsage ≤ b.1 ∧ IsInteger b.1 ∧ b.2 ≠ 0 ∧ IsInteger b.2 := by
  intro b hb
  have hinteger (c : Char) : IsInteger (lastInteger os c 0) :=
    isInteger_lastInteger os c (by decide)
  have hcases := h.batch
  rw [requestedBatch, Option.mem_def] at hb
  split at hb
  · next hon =>
    cases hb
    rw [if_pos hon] at hcases
    obtain ⟨hend, hinterval, hne, hle⟩ := hcases
    exact ⟨hle, hend ▸ hinteger 'e', hne, hinterval ▸ hinteger 'i'⟩
  · cases hb

/-- Without locking there is no critical section. -/
theorem Requests.csLength_eq_zero (hoff : o.locking = NO_LOCKING) : o.csLength = 0 := by
  have hl := h.locking
  rw [hoff] at hl
  cases hlast : lastArg os 'l' with
  | none => rw [h.csLength.1, lastInteger, hlast]; rfl
  | some a =>
    rw [hlast] at hl
    split at hl <;> cases hl

theorem Requests.locking_cases :
    o.locking = NO_LOCKING ∨ o.locking = LOCKING ∨ o.locking = NESTED_LOCKING := by
  rw [h.locking]
  split
  · exact .inr (.inr rfl)
  · split
    · exact .inr (.inl rfl)
    · exact .inl rfl

theorem Requests.batch_off (hoff : o.batchMode = false) :
    o.endUsage = o.cpuUsage ∧ o.interval = 1 := by
  have hcases := h.batch
  rwa [if_neg (by simp [hoff])] at hcases

/-- What is asked for by a command line is a request. -/
theorem Requests.exists_request : ∃ r : Request, r.options = o := by
  obtain ⟨a, ha, -, hscheduler⟩ := h.scheduler
  obtain ⟨i, hi, hworkload⟩ := h.workload
  obtain ⟨hlen, -⟩ := List.getElem?_eq_some_iff.mp hi
  obtain ⟨file, -, hfile⟩ := h.tasksetFilename
  refine ⟨⟨a, ha, file, o.cpuUsage, h.cpuUsage.2, o.runTime, h.runTime.2, ⟨i, hlen⟩,
    o.timingMethod, o.outputFormat, o.priorityInheritance, o.enableHua, o.deadlockPrevention,
    o.noRun, requestedLocking o, h.locking_mem, requestedBatch o, h.batch_mem⟩, ?_⟩
  have hlock : (match requestedLocking o with
      | none => NO_LOCKING
      | some (nested, _) => if nested then NESTED_LOCKING else LOCKING) = o.locking := by
    rcases h.locking_cases with hl | hl | hl <;> simp [requestedLocking, hl]
  have hcs : (match requestedLocking o with
      | none => 0
      | some (_, csLength) => csLength) = o.csLength := by
    by_cases hoff : o.locking = NO_LOCKING
    · simp [requestedLocking, hoff, h.csLength_eq_zero hoff]
    · simp [requestedLocking, hoff]
  have hbatchMode : (requestedBatch o).isSome = o.batchMode := by
    cases hb : o.batchMode <;> simp [requestedBatch, hb]
  have hend : (match requestedBatch o with
      | none => o.cpuUsage
      | some (endUsage, _) => endUsage) = o.endUsage := by
    cases hb : o.batchMode with
    | true => simp [requestedBatch, hb]
    | false => simpa [requestedBatch, hb] using (h.batch_off hb).1.symm
  have hinterval : (match requestedBatch o with
      | none => 1
      | some (_, interval) => interval) = o.interval := by
    cases hb : o.batchMode with
    | true => simp [requestedBatch, hb]
    | false => simpa [requestedBatch, hb] using (h.batch_off hb).2.symm
  simp only [Request.options, hlock, hcs, hbatchMode, hend, hinterval, ← hscheduler, ← hfile,
    ← hworkload]

end

/-- **The command line round trip.** The options of a request, in any order and put into words
in any way, make `main` run the test of the request, and it runs the tests of requests only. -/
theorem main_roundTrip :
    (∀ (r : Request) (os : List Opt) (argv : List (List Char)), os.Perm r.opts →
      Reads (wantsArg optstring) argv.tail os → 8 ≤ argv.length →
      main true argv = .runTest r.options) ∧
    ∀ argv o, main true argv = .runTest o → ∃ r : Request, r.options = o := by
  constructor
  · intro r os argv hperm hreads hlong
    exact (main_of_le hlong r.options).mpr ⟨os, hreads, r.requests hperm⟩
  · intro argv o h
    by_cases hlong : 8 ≤ argv.length
    · obtain ⟨os, -, hrequests⟩ := (main_of_le hlong o).mp h
      exact hrequests.exists_request
    · rw [main, if_pos (not_le.mp hlong)] at h
      cases h

/-- EDF on a file, with locking. -/
def edfRequest : Request where
  algorithm := ⟨SCHED_RT_EDF, "EDF".toList⟩
  algorithm_mem := by decide
  file := "5t_l".toList
  cpuUsage := 50
  cpuUsage_mem := by decide
  runTime := 20
  runTime_mem := by decide
  workload := ⟨1, by decide⟩
  timingMethod := .average
  outputFormat := .excel
  priorityInheritance := true
  enableHua := true
  deadlockPrevention := false
  noRun := false
  locking := some (true, 10)
  locking_mem := by decide
  batch := none
  batch_mem := by simp

/-- The flags in one word, and arguments with and without blanks. -/
def edfWords : List OptWord := [
  ⟨['p', 'h', 'n', 'x'], .nothing⟩,
  ⟨[], .separate 's' "EDF".toList⟩,
  ⟨[], .separate 'f' "5t_l".toList⟩,
  ⟨[], .attached 'c' (numeral 50)⟩,
  ⟨[], .attached 'r' (numeral 20)⟩,
  ⟨[], .separate 'w' "array_walk".toList⟩,
  ⟨[], .attached 't' "average".toList⟩,
  ⟨[], .separate 'l' (numeral 10)⟩]

theorem main_roundTrip_edf :
    main true ("sched_test_app".toList :: edfWords.flatMap OptWord.words) =
      .runTest edfRequest.options := by
  have hall : edfWords.all (OptWord.isValid · (wantsArg optstring)) = true := by decide +kernel
  have hvalid : ∀ w ∈ edfWords, w.Valid (wantsArg optstring) := fun w hw =>
    w.valid_of_isValid (List.all_eq_true.mp hall w hw)
  have hperm : (edfWords.flatMap OptWord.opts).Perm edfRequest.opts := List.perm_append_comm
  have hreads : Reads (wantsArg optstring) (edfWords.flatMap OptWord.words)
      (edfWords.flatMap OptWord.opts) := ⟨edfWords, _, ⟨hvalid, rfl, rfl⟩, .inl rfl⟩
  exact main_roundTrip.1 edfRequest _ _ hperm hreads (by decide)

end Chronos.Run
