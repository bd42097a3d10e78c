import Chronos.Slope.Store

/-!
# Runs of the generator

A check of a workload concerns one file only. So a run of the generator is an independent check
for each selected workload, up to the first that ends in an error. It follows what any number of
runs leave on disk, even if they are killed, and which sizes the test application finds in it.
-/

namespace Chronos.Slope.Store

open Lib Taskset

/-- The file of the average slopes. -/
abbrev averageFile (i : Fin NUM_WORKLOADS) : List Char := slopeFilename i .average

theorem averageFile_injective : Function.Injective averageFile := fun _ _ h =>
  (slopeFilename_eq_iff.mp h).1

abbrev unableToWrite : String := "Unable to write average slope"

abbrev couldNotAccess : String :=
  "Could not access the slope files. " ++
    "Check to make sure you are running as root (or sudo)."

/-! ## A check -/

section Check

variable {a : Access} {i : Fin NUM_WORKLOADS} {measured : Nat → ℚ} {force : Bool} {files : Files}

/-- What a check does, given the contents of its file, or that there is none. -/
def checked (a : Access) (i : Fin NUM_WORKLOADS) (measured : Nat → ℚ) (force : Bool)
    (file : Option (List Line)) : Ran :=
  let w := getWorkloadStruct i
  let name := averageFile i
  match file with
  | none =>
    if !a.creatable name then ⟨[], some couldNotAccess⟩
    else if !a.writable name then ⟨[.truncate name], some unableToWrite⟩
    else ⟨.truncate name :: Write.rewrite name (Slope.updateSlopes w measured), none⟩
  | some file =>
    if !(a.writable name && a.readable name) then ⟨[], some couldNotAccess⟩
    else if Slope.getWorkloadSlope w DEFAULT_MIN_TASK_WSS DEFAULT_MIN_GROUP_WSS file ≤ 0 ∨
        force = true then
      ⟨Write.rewrite name (Slope.updateSlopes w measured), none⟩
    else ⟨[], none⟩

theorem updateSlopes_eq_map (w : Workload) :
    Slope.updateSlopes w measured = (List.range (samples w)).map (sampleLine w measured) :=
  foldl_putWorkloadSlope _ []

theorem samples_pos (w : Workload) : 0 < samples w := by
  unfold samples
  split <;> norm_num

theorem putAverageSlopes_eq {file : List Line} (ks : List Nat)
    (hfile : files (averageFile i) = some file) (hwritable : a.writable (averageFile i) = true) :
    putAverageSlopes a i measured ks files =
      ⟨(ks.map (sampleLine (getWorkloadStruct i) measured)).map (.append (averageFile i)),
        none⟩ := by
  induction ks generalizing files file with
  | nil => rfl
  | cons k ks ih =>
    have hmay : a.mayWrite files (averageFile i) = true := by
      rw [Access.mayWrite, hfile]
      exact hwritable
    have hnext := ih (Write.apply_append hfile (sampleLine (getWorkloadStruct i) measured k))
    rw [putAverageSlopes, putWorkloadSlope, if_pos hmay]
    simp only [ne_eq, not_true_eq_false, if_false, Ran.andThen]
    exact congrArg (fun r : Ran => Ran.mk (.append (averageFile i) _ :: r.writes) r.fatal) hnext

/-- Without the right to write, the file is left as it is. -/
theorem updateSlopes_ran {file : List Line} (hfile : files (averageFile i) = some file) :
    updateSlopes a i measured files =
      if a.writable (averageFile i) then
        ⟨Write.rewrite (averageFile i) (Slope.updateSlopes (getWorkloadStruct i) measured), none⟩
      else ⟨[], some unableToWrite⟩ := by
  have hmay : a.mayWrite files (averageFile i) = a.writable (averageFile i) := by
    rw [Access.mayWrite, hfile]
  unfold updateSlopes clearWorkloadSlope
  dsimp only
  rw [hmay]
  by_cases hwritable : a.writable (averageFile i) = true
  · rw [if_pos hwritable, if_pos hwritable, Ran.andThen]
    dsimp only
    have hempty : files.after [.truncate (averageFile i)] (averageFile i) = some [] :=
      Write.apply_truncate
    rw [updateSlopes_eq_map]
    exact congrArg (fun r : Ran => Ran.mk (.truncate (averageFile i) :: r.writes) r.fatal)
      (putAverageSlopes_eq _ hempty hwritable)
  · rw [if_neg hwritable, if_neg hwritable]
    obtain ⟨n, hn⟩ := Nat.exists_eq_succ_of_ne_zero (samples_pos (getWorkloadStruct i)).ne'
    have hdenied : ¬a.mayWrite files (averageFile i) = true := by rwa [hmay]
    rw [hn, List.range_succ_eq_map, Ran.andThen]
    dsimp only
    rw [Directory.after_nil, putAverageSlopes, putWorkloadSlope, if_neg hdenied]
    rfl

/-- **A check** depends on its own file only. -/
theorem checkSlopes_eq :
    checkSlopes a i measured force files = checked a i measured force (files (averageFile i)) := by
  unfold checkSlopes workloadSlopeFileAccessible checked
  dsimp only
  cases hfile : files (averageFile i) with
  | none =>
    dsimp only
    by_cases hcreatable : a.creatable (averageFile i) = true
    · have hempty : files.after [.truncate (averageFile i)] (averageFile i) = some [] :=
        Write.apply_truncate
      have hlookup : getWorkloadSlope a (files.after [.truncate (averageFile i)]) i .average
          DEFAULT_MIN_TASK_WSS DEFAULT_MIN_GROUP_WSS ≤ 0 := by
        unfold getWorkloadSlope Access.read
        rw [hempty]
        by_cases hreadable : a.readable (averageFile i) = true
        · rw [if_pos hreadable]
          norm_num [Slope.getWorkloadSlope, searchSlope, Neighbours.start]
        · rw [if_neg hreadable]
          norm_num
      rw [if_pos hcreatable, hcreatable]
      simp only [Bool.not_true, Bool.false_eq_true, if_false, Ran.andThen]
      rw [if_pos (.inl hlookup), updateSlopes_ran hempty]
      cases hwritable : a.writable (averageFile i) <;> rfl
    · rw [if_neg hcreatable, Bool.not_eq_true] at *
      rw [hcreatable]
      rfl
  | some file =>
    dsimp only
    by_cases hperm : (a.writable (averageFile i) && a.readable (averageFile i)) = true
    · obtain ⟨hwritable, hreadable⟩ := Bool.and_eq_true_iff.mp hperm
      have hlookup : getWorkloadSlope a (files.after []) i .average DEFAULT_MIN_TASK_WSS
          DEFAULT_MIN_GROUP_WSS = Slope.getWorkloadSlope (getWorkloadStruct i)
            DEFAULT_MIN_TASK_WSS DEFAULT_MIN_GROUP_WSS file := by
        unfold getWorkloadSlope Access.read
        rw [if_pos hreadable, Directory.after_nil, hfile]
      rw [hperm]
      simp only [Bool.not_true, Bool.false_eq_true, if_false, Ran.andThen]
      by_cases hupdate : Slope.getWorkloadSlope (getWorkloadStruct i) DEFAULT_MIN_TASK_WSS
          DEFAULT_MIN_GROUP_WSS file ≤ 0 ∨ force = true
      · rw [if_pos hupdate, if_pos (by rwa [hlookup]), Directory.after_nil, updateSlopes_ran hfile,
          if_pos hwritable]
        rfl
      · rw [if_neg hupdate, if_neg (by rwa [hlookup])]
        rfl
    · rw [Bool.not_eq_true] at hperm
      rw [hperm]
      rfl

theorem name_of_mem_checked {file : Option (List Line)} {write : FileWrite}
    (h : write ∈ (checked a i measured force file).writes) : write.name = averageFile i := by
  unfold checked at h
  cases file <;> dsimp only at h
  · split at h
    · cases h
    · split at h
      · obtain rfl := List.mem_singleton.mp h
        rfl
      · rcases List.mem_cons.mp h with rfl | h
        · rfl
        · exact Write.name_of_mem_rewrite h
  · split at h
    · cases h
    · split at h
      · exact Write.name_of_mem_rewrite h
      · cases h

/-- A check that goes through leaves what the pure one does. -/
theorem after_checked (h : (checked a i measured force (files (averageFile i))).fatal = none) :
    files.after (checked a i measured force (files (averageFile i))).writes (averageFile i) =
      some (Slope.checkSlopes (getWorkloadStruct i) force measured
        ((files (averageFile i)).getD [])) := by
  unfold checked Slope.checkSlopes at *
  cases hfile : files (averageFile i) with
  | none =>
    rw [hfile] at h
    dsimp only at h ⊢
    by_cases hcreatable : (!a.creatable (averageFile i)) = true
    · rw [if_pos hcreatable] at h
      cases h
    · rw [if_neg hcreatable] at h ⊢
      by_cases hwritable : (!a.writable (averageFile i)) = true
      · rw [if_pos hwritable] at h
        cases h
      · have hlookup : Slope.getWorkloadSlope (getWorkloadStruct i) DEFAULT_MIN_TASK_WSS
            DEFAULT_MIN_GROUP_WSS [] ≤ 0 := by
          norm_num [Slope.getWorkloadSlope, searchSlope, Neighbours.start]
        rw [if_neg hwritable, Directory.after_cons, Directory.after_rewrite, Option.getD_none,
          if_pos (.inl hlookup)]
  | some file =>
    rw [hfile] at h
    dsimp only [Option.getD_some] at h ⊢
    split at h
    · cases h
    · next hperm =>
      rw [if_neg hperm]
      split
      · exact Directory.after_rewrite
      · exact hfile

variable (a i measured force files) in
/-- Killed or not, it leaves its file alone or makes it the beginning of a generation. -/
theorem after_take_checked (k : Nat) :
    files.after ((checked a i measured force (files (averageFile i))).writes.take k)
        (averageFile i) = files (averageFile i) ∨
      ∃ n ≤ samples (getWorkloadStruct i),
        files.after ((checked a i measured force (files (averageFile i))).writes.take k)
          (averageFile i) = some (interruptedSlopes (getWorkloadStruct i) measured n) := by
  have hrewrite (d : Files) (k : Nat) :
      d.after ((Write.rewrite (averageFile i)
        (Slope.updateSlopes (getWorkloadStruct i) measured)).take k) (averageFile i) =
          d (averageFile i) ∨
      ∃ n ≤ samples (getWorkloadStruct i), d.after ((Write.rewrite (averageFile i)
        (Slope.updateSlopes (getWorkloadStruct i) measured)).take k) (averageFile i) =
          some (interruptedSlopes (getWorkloadStruct i) measured n) := by
    refine (Directory.after_take_rewrite k).imp id fun ⟨j, hj⟩ => ?_
    refine ⟨min j (samples _), min_le_right _ _, ?_⟩
    rw [hj, updateSlopes_eq_map, ← List.map_take, List.take_range, interruptedSlopes_eq]
  have hnothing : files.after (([] : List FileWrite).take k) (averageFile i) =
      files (averageFile i) := by
    rw [List.take_nil]
    rfl
  unfold checked
  cases hfile : files (averageFile i) with
  | none =>
    dsimp only
    split
    · exact .inl (hnothing.trans hfile)
    · cases k with
      | zero => exact .inl hfile
      | succ k =>
        have hempty : Write.apply files (.truncate (averageFile i)) (averageFile i) =
            some (interruptedSlopes (getWorkloadStruct i) measured 0) :=
          Write.apply_truncate
        split
        · refine .inr ⟨0, Nat.zero_le _, ?_⟩
          rw [List.take_succ_cons, List.take_nil]
          exact hempty
        · rw [List.take_succ_cons, Directory.after_cons]
          rcases hrewrite (Write.apply files (.truncate (averageFile i))) k with h | h
          · exact .inr ⟨0, Nat.zero_le _, h.trans hempty⟩
          · exact .inr h
  | some file =>
    dsimp only
    split
    · exact .inl (hnothing.trans hfile)
    · split
      · rw [← hfile]
        exact hrewrite files k
      · exact .inl (hnothing.trans hfile)

end Check

/-! ## A run -/

section Runs

variable {a : Access} {measured : Fin NUM_WORKLOADS → Nat → ℚ} {force : Bool}
  {is : List (Fin NUM_WORKLOADS)} {files : Files} {i : Fin NUM_WORKLOADS}

theorem after_take_of_ne {name : List Char} (hname : name ≠ averageFile i) (k : Nat) :
    files.after ((checkSlopes a i (measured i) force files).writes.take k) name = files name := by
  rw [checkSlopes_eq]
  refine Directory.after_of_forall_ne fun write hwrite heq => hname ?_
  exact heq.symm.trans (name_of_mem_checked (List.mem_of_mem_take hwrite))

theorem after_of_ne {name : List Char} (hname : name ≠ averageFile i) :
    files.after (checkSlopes a i (measured i) force files).writes name = files name := by
  have htake : files.after ((checkSlopes a i (measured i) force files).writes.take
      (checkSlopes a i (measured i) force files).writes.length) name = files name :=
    after_take_of_ne hname _
  rwa [List.take_length] at htake

/-- What every check keeps, wherever it is cut off, every run of checks keeps. -/
theorem always_checkAll {P : Files → Prop}
    (hcheck : ∀ i files, P files →
      Directory.Always P files (checkSlopes a i (measured i) force files).writes)
    (h : P files) : Directory.Always P files (checkAll a measured force is files).writes := by
  induction is generalizing files with
  | nil => exact Directory.always_nil.mpr h
  | cons i is ih =>
    have hi := hcheck i files h
    rw [checkAll, Ran.andThen]
    split
    · exact hi
    · exact hi.append (ih hi.at_end)

/-- A file that no check is about. -/
theorem checkAll_of_ne {name : List Char} (hname : ∀ i ∈ is, name ≠ averageFile i) :
    files.after (checkAll a measured force is files).writes name = files name := by
  induction is generalizing files with
  | nil => rfl
  | cons i is ih =>
    rw [checkAll, Ran.andThen]
    split
    · exact after_of_ne (hname i List.mem_cons_self)
    · dsimp only
      rw [Directory.after_append, ih fun j hj => hname j (List.mem_cons_of_mem _ hj),
        after_of_ne (hname i List.mem_cons_self)]

variable (a measured force files) in
/-- A run checks each of its files, unless it ends in an error before. -/
theorem checkAll_file (hnodup : is.Nodup) (i : Fin NUM_WORKLOADS) :
    (files.after (checkAll a measured force is files).writes (averageFile i) =
        files (averageFile i) ∧
      ((checkAll a measured force is files).fatal = none → i ∉ is)) ∨
    (files.after (checkAll a measured force is files).writes (averageFile i) =
        files.after (checked a i (measured i) force (files (averageFile i))).writes
          (averageFile i) ∧
      ((checkAll a measured force is files).fatal = none →
        (checked a i (measured i) force (files (averageFile i))).fatal = none)) := by
  induction is generalizing files with
  | nil => exact .inl ⟨rfl, fun _ => List.not_mem_nil⟩
  | cons j is ih =>
    obtain ⟨hj, hnodup⟩ := List.nodup_cons.mp hnodup
    rw [checkAll, Ran.andThen]
    by_cases hij : i = j
    · subst hij
      have hother : ∀ j ∈ is, averageFile i ≠ averageFile j := fun j hj' heq =>
        hj (averageFile_injective heq ▸ hj')
      right
      rw [checkSlopes_eq]
      cases hfatal : (checked a i (measured i) force (files (averageFile i))).fatal with
      | some msg => exact ⟨rfl, fun h => absurd (hfatal.symm.trans h) nofun⟩
      | none =>
        refine ⟨?_, fun _ => rfl⟩
        dsimp only
        rw [Directory.after_append, checkAll_of_ne hother]
    · have hfirst : files.after (checkSlopes a j (measured j) force files).writes (averageFile i) =
          files (averageFile i) := after_of_ne fun heq => hij (averageFile_injective heq)
      cases hfatal : (checkSlopes a j (measured j) force files).fatal with
      | some msg => exact .inl ⟨hfirst, fun h => absurd (hfatal.symm.trans h) nofun⟩
      | none =>
        dsimp only
        rw [Directory.after_append]
        rcases @ih (files.after (checkSlopes a j (measured j) force files).writes) hnodup with
          ⟨hsame, hnot⟩ | ⟨hchecked, hnone⟩
        · exact .inl ⟨hsame.trans hfirst, fun h => List.not_mem_cons_of_ne_of_not_mem hij (hnot h)⟩
        · rw [hfirst] at hchecked hnone
          exact .inr ⟨hchecked.trans (Directory.after_congr hfirst), hnone⟩

/-- **A run that goes through** is the pure check of each of its files. -/
theorem checkAll_eq (hnodup : is.Nodup) (h : (checkAll a measured force is files).fatal = none)
    (hi : i ∈ is) :
    files.after (checkAll a measured force is files).writes (averageFile i) =
      some (Slope.checkSlopes (getWorkloadStruct i) force (measured i)
        ((files (averageFile i)).getD [])) := by
  rcases checkAll_file a measured force files hnodup i with ⟨-, hnot⟩ | ⟨hfile, hnone⟩
  · exact absurd hi (hnot h)
  · rw [hfile]
    exact after_checked (hnone h)

end Runs

end Chronos.Slope.Store
