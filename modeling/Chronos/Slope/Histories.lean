import Chronos.Slope.Generator

/-!
# Histories of the slope files

What is on disk after any number of runs of the generator. Its files are beginnings of one
generation each, whenever the runs were killed, and nothing else is touched. Runs that were not
killed leave the sizes up to the last sample to the test application.
-/

namespace Chronos.Slope.Store

open Lib Taskset

/-- The files after runs of a kind, each of which may be cut off after some of its writes. -/
inductive Reaches (P : Invocation → Prop) (start : Files) : Files → Prop
  | start : Reaches P start start
  | run {files : Files} {v : Invocation} (k : Nat) (hv : P v) (h : Reaches P start files) :
      Reaches P start (files.after ((main v files).1.take k))

/-- The run is asked to check a workload. -/
def Covers (v : Invocation) (i : Fin NUM_WORKLOADS) : Prop :=
  ∃ l workload, parse v.argv = some l ∧ l.workload = some workload ∧ i ∈ selected workload

def Forced (v : Invocation) : Prop := ∃ l, parse v.argv = some l ∧ l.force = true

section

variable {v : Invocation} {files : Files} {i : Fin NUM_WORKLOADS}

theorem nodup_selected (workload : Int) : (selected workload).Nodup := by
  unfold selected
  split
  · exact List.nodup_finRange _
  · exact (List.nodup_finRange _).filter _

/-- A run that writes is one of `checkAll`, and so is one that returns zero. -/
theorem main_cases (v : Invocation) (files : Files) :
    ((main v files).1 = [] ∧ (main v files).2 ≠ .returns 0) ∨
      ∃ l workload, parse v.argv = some l ∧ l.workload = some workload ∧
        (main v files).1 =
          (checkAll v.access v.measured l.force (selected workload) files).writes ∧
        ((main v files).2 = .returns 0 ↔
          (checkAll v.access v.measured l.force (selected workload) files).fatal = none) := by
  unfold main
  split
  · exact .inl ⟨rfl, nofun⟩
  · next l hl =>
    split
    · exact .inl ⟨rfl, nofun⟩
    · next workload hworkload =>
      split
      · exact .inl ⟨rfl, nofun⟩
      · refine .inr ⟨l, workload, hl, hworkload, rfl, ?_⟩
        dsimp only
        cases (checkAll v.access v.measured l.force (selected workload) files).fatal <;> simp

/-- What every check keeps, wherever it is cut off, every run keeps. -/
theorem always_main {P : Files → Prop}
    (hcheck : ∀ l i files, parse v.argv = some l → P files →
      Directory.Always P files (checkSlopes v.access i (v.measured i) l.force files).writes)
    (h : P files) : Directory.Always P files (main v files).1 := by
  rcases main_cases v files with ⟨hnothing, -⟩ | ⟨l, workload, hl, -, hwrites, -⟩
  · rw [hnothing]
    exact Directory.always_nil.mpr h
  · rw [hwrites]
    exact always_checkAll (fun i files => hcheck l i files hl) h

end

/-! ## With all rights -/

/-- The rights of a process that may open every file. -/
def Access.all : Access := ⟨fun _ => true, fun _ => true, fun _ => true⟩

theorem fatal_checkAll_all {measured : Fin NUM_WORKLOADS → Nat → ℚ} {force : Bool}
    {is : List (Fin NUM_WORKLOADS)} {files : Files} :
    (checkAll .all measured force is files).fatal = none := by
  induction is generalizing files with
  | nil => rfl
  | cons i is ih =>
    have hcheck : (checkSlopes .all i (measured i) force files).fatal = none := by
      rw [checkSlopes_eq]
      unfold checked
      cases files (averageFile i) with
      | none => rfl
      | some file =>
        change (ite _ _ (ite _ _ _) : Ran).fatal = none
        rw [if_neg (by simp [Access.all])]
        split <;> rfl
    rw [checkAll, Ran.andThen, hcheck]
    exact ih

/-- The generator without options. -/
def plainRun : Invocation := ⟨["slope".toList], true, .all, fun _ _ => 1⟩

theorem covers_plainRun (i : Fin NUM_WORKLOADS) : Covers plainRun i :=
  ⟨⟨none, false, false⟩, -1, rfl, rfl, List.mem_finRange i⟩

theorem returns_plainRun (files : Files) : (main plainRun files).2 = .returns 0 := by
  have hparse : parse plainRun.argv = some ⟨none, false, false⟩ := rfl
  have hworkload : (⟨none, false, false⟩ : Locals).workload = some (-1) := rfl
  have haccess : plainRun.access = .all := rfl
  have hlock : (!plainRun.mlockall) = false := rfl
  simp only [main, hparse, hworkload, haccess, hlock, fatal_checkAll_all, Bool.false_eq_true,
    if_false]

/-! ## Killed at any time -/

/-- The generator has been at work here. -/
structure Generated (start files : Files) : Prop where
  average (i : Fin NUM_WORKLOADS) : files (averageFile i) = start (averageFile i) ∨
    ∃ measured, ∃ n ≤ samples (getWorkloadStruct i),
      files (averageFile i) = some (interruptedSlopes (getWorkloadStruct i) measured n)
  other (name : List Char) (h : ∀ i, name ≠ averageFile i) : files name = start name

theorem Generated.checkSlopes {start files : Files} {a : Access} {i : Fin NUM_WORKLOADS}
    {measured : Fin NUM_WORKLOADS → Nat → ℚ} {force : Bool} (h : Generated start files) :
    Directory.Always (Generated start) files
      (checkSlopes a i (measured i) force files).writes := by
  intro k
  constructor
  · intro j
    by_cases hji : j = i
    · subst hji
      rw [checkSlopes_eq]
      rcases after_take_checked a j (measured j) force files k with hsame | ⟨n, hn, hpart⟩
      · rw [hsame]
        exact h.average j
      · exact .inr ⟨measured j, n, hn, hpart⟩
    · rw [after_take_of_ne (averageFile_injective.ne hji)]
      exact h.average j
  · intro name hname
    rw [after_take_of_ne (hname i)]
    exact h.other name hname

/-- **Any runs of the generator**, killed or not, leave in each file of average slopes what was
in it or a beginning of one generation. They touch no other file. -/
theorem reaches_generated {P : Invocation → Prop} {start files : Files}
    (h : Reaches P start files) : Generated start files := by
  induction h with
  | start => exact ⟨fun _ => .inl rfl, fun _ _ => rfl⟩
  | run k _ _ ih => exact always_main (fun _ _ _ _ h => h.checkSlopes) ih k

theorem reaches_generated_plainRun :
    Generated (fun _ => none) (Directory.after (fun _ => none)
      ((main plainRun fun _ => none).1.take 3)) :=
  reaches_generated (P := fun _ => True) (.run 3 trivial .start)

/-! ## A run that goes through -/

theorem main_returns {v : Invocation} {files : Files} (h : (main v files).2 = .returns 0) :
    ∃ l workload, parse v.argv = some l ∧ l.workload = some workload ∧
      (∀ i ∈ selected workload, files.after (main v files).1 (averageFile i) =
        some (Slope.checkSlopes (getWorkloadStruct i) l.force (v.measured i)
          ((files (averageFile i)).getD []))) ∧
      ∀ name, (∀ i ∈ selected workload, name ≠ averageFile i) →
        files.after (main v files).1 name = files name := by
  rcases main_cases v files with ⟨-, hnot⟩ | ⟨l, workload, hl, hworkload, hwrites, hreturns⟩
  · exact absurd h hnot
  · refine ⟨l, workload, hl, hworkload, ?_, ?_⟩
    · intro i hi
      rw [hwrites]
      exact checkAll_eq (nodup_selected workload) (hreturns.mp h) hi
    · intro name hname
      rw [hwrites]
      exact checkAll_of_ne hname

theorem main_returns_plainRun :
    ∃ l workload, parse plainRun.argv = some l ∧ l.workload = some workload ∧
      (∀ i ∈ selected workload,
        Directory.after (fun _ => none) (main plainRun fun _ => none).1 (averageFile i) =
          some (Slope.checkSlopes (getWorkloadStruct i) l.force (plainRun.measured i) [])) ∧
      ∀ name, (∀ i ∈ selected workload, name ≠ averageFile i) →
        Directory.after (fun _ => none) (main plainRun fun _ => none).1 name = none :=
  main_returns (returns_plainRun fun _ => none)

/-! ## What is looked up -/

/-- The slopes do not print as zero. -/
def Prints (measured : Fin NUM_WORKLOADS → Nat → ℚ) : Prop :=
  ∀ i, ∀ k < SLOPE_GEN_WSS_SAMPLES, 1 / (2 * 10 ^ 6) < measured i k

section Lookup

variable {i : Fin NUM_WORKLOADS} {measured : Nat → ℚ} {taskWss groupWss : Nat}

theorem varying_workloads (h : i ≠ 0) : Varying (getWorkloadStruct i) := by
  refine ⟨?_, valid_workloads i⟩
  revert i
  decide

theorem lookup_first (h : (sampleLine (getWorkloadStruct i) measured 0).wss =
      realWss (getWorkloadStruct i) taskWss groupWss) :
    Slope.getWorkloadSlope (getWorkloadStruct i) taskWss groupWss
      (Slope.updateSlopes (getWorkloadStruct i) measured) = fl (printSlope (measured 0)) := by
  obtain ⟨n, hn⟩ := Nat.exists_eq_succ_of_ne_zero (samples_pos (getWorkloadStruct i)).ne'
  rw [updateSlopes_eq_map, hn, List.range_succ_eq_map, List.map_cons, Slope.getWorkloadSlope,
    searchSlope, if_pos h]
  rfl

/-- The first sample of each workload has the sizes that `check_slopes` looks up. -/
theorem lookup_default (i : Fin NUM_WORKLOADS) :
    Slope.getWorkloadSlope (getWorkloadStruct i) DEFAULT_MIN_TASK_WSS DEFAULT_MIN_GROUP_WSS
        (Slope.updateSlopes (getWorkloadStruct i) measured) = fl (printSlope (measured 0)) := by
  apply lookup_first
  unfold sampleLine
  dsimp only
  revert i
  decide

theorem realWss_burnLoop (taskWss groupWss : Nat) :
    realWss (getWorkloadStruct 0) taskWss groupWss = 0 := rfl

theorem lookup_above (h : Varying (getWorkloadStruct i))
    (hwss : Admissible (getWorkloadStruct i) taskWss groupWss)
    (habove : lastWss (getWorkloadStruct i) < realWss (getWorkloadStruct i) taskWss groupWss) :
    Slope.getWorkloadSlope (getWorkloadStruct i) taskWss groupWss
      (Slope.updateSlopes (getWorkloadStruct i) measured) = -1 := by
  rw [updateSlopes_eq h.varies]
  refine searchSlope_above (List.forall_mem_map.mpr fun k hk => ?_) (by norm_num [Neighbours.start])
  exact (sampleLine_le_lastWss h hwss (List.mem_range.mp hk)).trans_lt habove

theorem lookup_pos (h : Varying (getWorkloadStruct i))
    (hmeasured : ∀ k < SLOPE_GEN_WSS_SAMPLES, 1 / (2 * 10 ^ 6) < measured k)
    (hwss : Admissible (getWorkloadStruct i) taskWss groupWss)
    (hlast : realWss (getWorkloadStruct i) taskWss groupWss ≤ lastWss (getWorkloadStruct i)) :
    0 < Slope.getWorkloadSlope (getWorkloadStruct i) taskWss groupWss
      (Slope.updateSlopes (getWorkloadStruct i) measured) := by
  have hmem {k : Nat} (hk : k < SLOPE_GEN_WSS_SAMPLES) :
      sampleLine (getWorkloadStruct i) measured k ∈
        (List.range SLOPE_GEN_WSS_SAMPLES).map (sampleLine (getWorkloadStruct i) measured) :=
    List.mem_map_of_mem (List.mem_range.mpr hk)
  rw [updateSlopes_eq h.varies]
  apply searchSlope_pos
  · exact ⟨.inl (by norm_num [Neighbours.start]), .inl (by norm_num [Neighbours.start])⟩
  · refine List.forall_mem_map.mpr fun k hk => ?_
    have hk' := List.mem_range.mp hk
    exact sampleLine_valid h hwss hk' (hmeasured k hk')
  · exact .inr ⟨_, hmem (by norm_num), sampleLine_zero_le h hwss⟩
  · exact .inr ⟨_, hmem (by norm_num), hlast.trans (lastWss_le_sampleLine h hwss)⟩

/-- A complete file has a slope for the sizes up to the last sample. -/
theorem lookup_pos_iff (hmeasured : ∀ k < SLOPE_GEN_WSS_SAMPLES, 1 / (2 * 10 ^ 6) < measured k)
    (hwss : Admissible (getWorkloadStruct i) taskWss groupWss) :
    0 < Slope.getWorkloadSlope (getWorkloadStruct i) taskWss groupWss
        (Slope.updateSlopes (getWorkloadStruct i) measured) ↔
      realWss (getWorkloadStruct i) taskWss groupWss ≤ lastWss (getWorkloadStruct i) := by
  by_cases hi : i = 0
  · -- the burn loop has one line, for no memory at all
    subst hi
    refine iff_of_true ?_ le_rfl
    rw [lookup_first ((realWss_burnLoop _ _).trans (realWss_burnLoop _ _).symm)]
    exact lt_of_lt_of_le (by norm_num) (least_le_fl_printSlope (hmeasured 0 (by norm_num)))
  · have hvarying := varying_workloads hi
    constructor
    · intro hpos
      by_contra hlast
      rw [lookup_above hvarying hwss (not_le.mp hlast)] at hpos
      norm_num at hpos
    · exact lookup_pos hvarying hmeasured hwss

theorem lookup_default_pos
    (hmeasured : ∀ k < SLOPE_GEN_WSS_SAMPLES, 1 / (2 * 10 ^ 6) < measured k) :
    0 < Slope.getWorkloadSlope (getWorkloadStruct i) DEFAULT_MIN_TASK_WSS DEFAULT_MIN_GROUP_WSS
      (Slope.updateSlopes (getWorkloadStruct i) measured) := by
  rw [lookup_default]
  exact lt_of_lt_of_le (by norm_num) (least_le_fl_printSlope (hmeasured 0 (by norm_num)))

end Lookup

/-! ## Nothing left to do -/

/-- The file has a slope for the smallest sizes. -/
def Settled (i : Fin NUM_WORKLOADS) (files : Files) : Prop :=
  ∃ file, files (averageFile i) = some file ∧
    0 < Slope.getWorkloadSlope (getWorkloadStruct i) DEFAULT_MIN_TASK_WSS DEFAULT_MIN_GROUP_WSS file

section Settled

variable {v : Invocation} {files files' : Files} {i : Fin NUM_WORKLOADS}

theorem Settled.writes {a : Access} {measured : Nat → ℚ} (h : Settled i files) :
    (checkSlopes a i measured false files).writes = [] := by
  obtain ⟨file, hfile, hpos⟩ := h
  have hlookup : ¬(Slope.getWorkloadSlope (getWorkloadStruct i) DEFAULT_MIN_TASK_WSS
      DEFAULT_MIN_GROUP_WSS file ≤ 0 ∨ false = true) := by
    rintro (hle | hforce)
    · exact hpos.not_ge hle
    · cases hforce
  rw [checkSlopes_eq, hfile, checked, if_neg hlookup]
  split <;> rfl

theorem settled_of_returns (hprints : Prints v.measured) (hi : Covers v i)
    (h : (main v files).2 = .returns 0) : Settled i (files.after (main v files).1) := by
  obtain ⟨l, workload, hl, hworkload, hfiles, -⟩ := main_returns h
  obtain ⟨l', workload', hl', hworkload', hselected⟩ := hi
  obtain rfl := Option.some.inj (hl.symm.trans hl')
  obtain rfl := Option.some.inj (hworkload.symm.trans hworkload')
  refine ⟨_, hfiles i hselected, ?_⟩
  unfold Slope.checkSlopes
  dsimp only
  split
  · exact lookup_default_pos (hprints i)
  · next hkept => exact not_le.mp fun hle => hkept (.inl hle)

/-- **Once all slopes are there**, no runs that are not forced write anything, whatever they find
and even if they are killed. -/
theorem reaches_settled (hprints : Prints v.measured) (hall : ∀ i, Covers v i)
    (hreturns : (main v files).2 = .returns 0)
    (h : Reaches (fun v => ¬Forced v) (files.after (main v files).1) files') :
    files' = files.after (main v files).1 := by
  have hsettled := fun i => settled_of_returns hprints (hall i) hreturns
  generalize files.after (main v files).1 = start at *
  induction h with
  | start => rfl
  | run k hv _ ih =>
    refine always_main (P := (· = start)) (fun l i files hl hfiles => ?_) ih k
    have hforce : l.force = false := Bool.not_eq_true _ ▸ fun hforce => hv ⟨l, hl, hforce⟩
    subst hfiles
    rw [hforce, (hsettled i).writes]
    exact Directory.always_nil.mpr rfl

theorem not_forced_plainRun : ¬Forced plainRun := by
  rintro ⟨l, hl, hforce⟩
  obtain rfl := Option.some.inj hl
  cases hforce

theorem prints_plainRun : Prints plainRun.measured := fun _ _ _ => by norm_num [plainRun]

/-- A second run, killed after four writes, has nothing to write. -/
theorem reaches_settled_plainRun :
    Directory.after (Directory.after (fun _ => none) (main plainRun fun _ => none).1)
        ((main plainRun
          (Directory.after (fun _ => none) (main plainRun fun _ => none).1)).1.take 4) =
      Directory.after (fun _ => none) (main plainRun fun _ => none).1 :=
  reaches_settled prints_plainRun covers_plainRun (returns_plainRun _)
    (.run 4 not_forced_plainRun .start)

end Settled

/-! ## Runs that are not killed -/

/-- A file that a run has written to the end. -/
def Whole (i : Fin NUM_WORKLOADS) (file : Option (List Line)) : Prop :=
  ∃ measured : Nat → ℚ, (∀ k < SLOPE_GEN_WSS_SAMPLES, 1 / (2 * 10 ^ 6) < measured k) ∧
    file = some (Slope.updateSlopes (getWorkloadStruct i) measured)

/-- What is there without such a run. -/
def Fresh (file : Option (List Line)) : Prop := file = none ∨ file = some []

/-- The files after runs that are not killed, from none at all, and the workloads that a run has
gone through for. -/
inductive History : Files → Set (Fin NUM_WORKLOADS) → Prop
  | empty : History (fun _ => none) ∅
  | run {files : Files} {done : Set (Fin NUM_WORKLOADS)} {v : Invocation}
      (hprints : Prints v.measured) (h : History files done) :
      History (files.after (main v files).1)
        (done ∪ {i | Covers v i ∧ (main v files).2 = .returns 0})

section History

variable {a : Access} {files : Files} {i : Fin NUM_WORKLOADS} {measured : Nat → ℚ} {force : Bool}

/-- The pure check makes a whole file of either. -/
theorem whole_checkSlopes {file : Option (List Line)}
    (hmeasured : ∀ k < SLOPE_GEN_WSS_SAMPLES, 1 / (2 * 10 ^ 6) < measured k)
    (h : Fresh file ∨ Whole i file) :
    Whole i (some (Slope.checkSlopes (getWorkloadStruct i) force measured (file.getD []))) := by
  unfold Slope.checkSlopes
  dsimp only
  split
  · exact ⟨measured, hmeasured, rfl⟩
  · next hkept =>
    rcases h with hfresh | ⟨measured', hmeasured', rfl⟩
    · refine absurd (.inl ?_) hkept
      have hnone : file.getD [] = [] := by
        rcases hfresh with rfl | rfl <;> rfl
      rw [hnone]
      norm_num [Slope.getWorkloadSlope, searchSlope, Neighbours.start]
    · exact ⟨measured', hmeasured', rfl⟩

/-- A check that ends in an error has at most made an empty file. -/
theorem after_checked_of_fatal {msg : String}
    (h : (checked a i measured force (files (averageFile i))).fatal = some msg) :
    files.after (checked a i measured force (files (averageFile i))).writes (averageFile i) =
        files (averageFile i) ∨
      files (averageFile i) = none ∧
        files.after (checked a i measured force (files (averageFile i))).writes (averageFile i) =
          some [] := by
  unfold checked at *
  cases hfile : files (averageFile i) with
  | none =>
    rw [hfile] at h
    dsimp only at h ⊢
    split
    · exact .inl hfile
    · split
      · exact .inr ⟨rfl, Write.apply_truncate⟩
      · next hcreatable hwritable =>
        rw [if_neg hcreatable, if_neg hwritable] at h
        cases h
  | some file =>
    rw [hfile] at h
    dsimp only at h ⊢
    split
    · exact .inl hfile
    · next hperm =>
      rw [if_neg hperm] at h
      split at h <;> cases h

variable (a force) in
/-- What a check that is not killed keeps, and what it achieves. -/
theorem whole_checked
    (hmeasured : ∀ k < SLOPE_GEN_WSS_SAMPLES, 1 / (2 * 10 ^ 6) < measured k)
    (h : Fresh (files (averageFile i)) ∨ Whole i (files (averageFile i))) :
    let r := checked a i measured force (files (averageFile i))
    (Fresh (files.after r.writes (averageFile i)) ∨
        Whole i (files.after r.writes (averageFile i))) ∧
      (Whole i (files (averageFile i)) ∨ r.fatal = none →
        Whole i (files.after r.writes (averageFile i))) := by
  intro r
  cases hfatal : r.fatal with
  | none =>
    have hwhole : Whole i (files.after r.writes (averageFile i)) := by
      rw [after_checked hfatal]
      exact whole_checkSlopes hmeasured h
    exact ⟨.inr hwhole, fun _ => hwhole⟩
  | some msg =>
    rcases after_checked_of_fatal hfatal with hsame | ⟨hnone, hempty⟩
    · rw [hsame]
      exact ⟨h, fun hwhole => hwhole.resolve_right nofun⟩
    · rw [hempty, hnone]
      refine ⟨.inl (.inr rfl), ?_⟩
      rintro (⟨_, _, hwhole⟩ | hnone)
      · cases hwhole
      · cases hnone

/-- The files are whole or fresh, and whole where a run has gone through. -/
theorem History.whole {done : Set (Fin NUM_WORKLOADS)} (h : History files done)
    (i : Fin NUM_WORKLOADS) :
    (Fresh (files (averageFile i)) ∨ Whole i (files (averageFile i))) ∧
      (i ∈ done → Whole i (files (averageFile i))) := by
  induction h with
  | empty => exact ⟨.inl (.inl rfl), False.elim⟩
  | run hprints _ ih =>
    next files done v _ =>
    obtain ⟨hkept, hdone⟩ := ih
    rcases main_cases v files with
      ⟨hnothing, hnot⟩ | ⟨l, workload, hl, hworkload, hwrites, hreturns⟩
    · rw [hnothing]
      exact ⟨hkept, fun hi => hi.elim hdone fun hi => absurd hi.2 hnot⟩
    · rw [hwrites]
      rcases checkAll_file v.access v.measured l.force files (nodup_selected workload) i with
        ⟨hsame, hout⟩ | ⟨hfile, hnone⟩
      · rw [hsame]
        refine ⟨hkept, fun hi => hi.elim hdone fun ⟨hcovers, hzero⟩ => ?_⟩
        obtain ⟨l', workload', hl', hworkload', hselected⟩ := hcovers
        obtain rfl := Option.some.inj (hl.symm.trans hl')
        obtain rfl := Option.some.inj (hworkload.symm.trans hworkload')
        exact absurd hselected (hout (hreturns.mp hzero))
      · rw [hfile]
        obtain ⟨hkept', hwhole⟩ := whole_checked v.access l.force (hprints i) hkept
        refine ⟨hkept', fun hi => hwhole ?_⟩
        exact hi.imp hdone fun ⟨_, hzero⟩ => hnone (hreturns.mp hzero)

/-- No run has made a file of worst-case slopes. -/
theorem History.wcet {done : Set (Fin NUM_WORKLOADS)} (h : History files done)
    (i : Fin NUM_WORKLOADS) : files (slopeFilename i .wcet) = none := by
  induction h with
  | empty => rfl
  | run _ _ ih =>
    next files done v _ _ =>
    have hother : ∀ j, slopeFilename i .wcet ≠ averageFile j := fun j heq =>
      absurd ((slopeFilename_eq_iff.mp heq).2.mpr rfl) nofun
    rcases main_cases v files with ⟨hnothing, -⟩ | ⟨l, workload, -, -, hwrites, -⟩
    · rw [hnothing]
      exact ih
    · rw [hwrites, checkAll_of_ne fun j _ => hother j]
      exact ih

/-- **A task starts** after runs that were not killed exactly if its method is not the worst case,
the file may be read, and its size is not above the last sample. -/
theorem cachedSlope_ok_iff {done : Set (Fin NUM_WORKLOADS)} {timing : Run.TimingMethod}
    {taskWss groupWss : Nat} (h : History files done) (hi : i ∈ done)
    (hwss : Admissible (getWorkloadStruct i) taskWss groupWss) :
    (∃ slope, cachedSlope a files i timing taskWss groupWss = .ok slope) ↔
      timing ≠ .wcet ∧ a.readable (averageFile i) = true ∧
        realWss (getWorkloadStruct i) taskWss groupWss ≤ lastWss (getWorkloadStruct i) := by
  obtain ⟨measured, hmeasured, hfile⟩ := (h.whole i).2 hi
  have hwcet : getWorkloadSlope a files i .wcet taskWss groupWss = -1 := by
    unfold getWorkloadSlope Access.read
    rw [h.wcet i, ite_self]
  have haverage : 0 < getWorkloadSlope a files i .average taskWss groupWss ↔
      a.readable (averageFile i) = true ∧
        realWss (getWorkloadStruct i) taskWss groupWss ≤ lastWss (getWorkloadStruct i) := by
    unfold getWorkloadSlope Access.read
    by_cases hreadable : a.readable (averageFile i) = true
    · rw [if_pos hreadable, hfile]
      exact (lookup_pos_iff hmeasured hwss).trans (by simp [hreadable])
    · rw [if_neg hreadable]
      exact iff_of_false (by norm_num) fun h => hreadable h.1
  rw [← haverage]
  cases timing with
  | average | timer =>
    unfold cachedSlope
    dsimp only
    split
    · next hle => exact iff_of_false nofun fun h => h.2.not_ge hle
    · next hpos => exact iff_of_true ⟨_, rfl⟩ ⟨nofun, not_le.mp hpos⟩
  | wcet =>
    refine iff_of_false ?_ fun h => h.1 rfl
    unfold cachedSlope
    dsimp only
    rw [hwcet, if_pos (by norm_num)]
    rintro ⟨slope, hslope⟩
    cases hslope

/-- After one run, a task of the tree workload with the largest size does not start. -/
theorem cachedSlope_ok_iff_plainRun :
    (∃ slope, cachedSlope .all (Directory.after (fun _ => none) (main plainRun fun _ => none).1) 5
        .average 0 524288 = .ok slope) ↔
      Run.TimingMethod.average ≠ .wcet ∧ Access.all.readable (averageFile 5) = true ∧
        realWss (getWorkloadStruct 5) 0 524288 ≤ lastWss (getWorkloadStruct 5) :=
  cachedSlope_ok_iff (.run prints_plainRun .empty) (.inr ⟨covers_plainRun 5, returns_plainRun _⟩)
    ⟨by decide, by decide⟩

end History

end Chronos.Slope.Store
