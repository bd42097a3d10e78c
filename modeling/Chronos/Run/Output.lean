import Mathlib.Algebra.Order.BigOperators.Group.Finset
import Chronos.Run.Progress

/-!
# The output of a batch

`fork` copies the buffer of `stdout`, and each group process flushes its copy
when it exits. So a line printed in one run is written once more by every group
process of every later run, before the parent writes it at last.
-/

namespace Chronos.Run

open Chronos.Lib

variable {S : Setup} {s s' : State S}

/-- The runs whose result lines stand in a text, in order. -/
def results (out : List Line) : List Nat :=
  out.filterMap fun
    | .result run => some run
    | .warning _ => none

/-- **Each result is reported exactly once**, in the order of the runs. -/
def ReportedOnce (S : Setup) : Prop :=
  ∀ s : State S, Reachable S s → s.parent = .exited → results s.file = List.range S.runs

@[simp] theorem results_nil : results [] = [] := rfl

@[simp] theorem results_append (l l' : List Line) : results (l ++ l') = results l ++ results l' :=
  List.filterMap_append

@[simp] theorem results_singleton (run : Nat) : results [.result run] = [run] := rfl

@[simp] theorem results_warnings (l : List String) : results (l.map .warning) = [] := by
  rw [results, List.filterMap_map, List.filterMap_eq_nil_iff]
  exact fun _ _ => rfl

/-! ## Copies -/

/-- `n` copies of `l`. -/
def copies (n : Nat) (l : List Nat) : List Nat := (List.replicate n l).flatten

/-- What the group processes of the first `runs` runs write, `groups` in each. -/
def written (groups runs : Nat) : List Nat :=
  (List.range runs).flatMap fun run => copies groups (List.range run)

theorem copies_succ (n : Nat) (l : List Nat) : copies (n + 1) l = copies n l ++ l := by
  rw [copies, copies, List.replicate_succ', List.flatten_append, List.flatten_singleton]

theorem written_succ (groups runs : Nat) :
    written groups (runs + 1) = written groups runs ++ copies groups (List.range runs) := by
  rw [written, List.range_succ, List.flatMap_append, List.flatMap_singleton]
  rfl

/-- The group processes write nothing only in a batch of one run. -/
theorem written_eq_nil {groups runs : Nat} (hg : 0 < groups) (hr : 0 < runs) :
    written groups runs = [] ↔ runs = 1 := by
  constructor
  · intro h
    by_contra hne
    have hmem : 0 ∈ written groups runs := by
      refine List.mem_flatMap.mpr ⟨1, List.mem_range.mpr (by omega), ?_⟩
      exact List.mem_flatten.mpr ⟨[0], List.mem_replicate.mpr ⟨by omega, rfl⟩,
        List.mem_singleton_self 0⟩
    rw [h] at hmem
    cases hmem
  · rintro rfl
    simp [written, copies]

/-! ## The groups -/

/-- The number of thread groups. -/
def Setup.numGroups (S : Setup) : Nat := ∑ t, if S.IsLeader t then 1 else 0

theorem Setup.numGroups_pos (S : Setup) : 0 < S.numGroups := by
  have hl := S.isLeader_groupLeader ⟨0, S.numTasks_pos⟩
  refine Finset.sum_pos' (fun _ _ => Nat.zero_le _)
    ⟨S.groupLeader ⟨0, S.numTasks_pos⟩, Finset.mem_univ _, ?_⟩
  rw [if_pos hl]
  exact Nat.one_pos

def ProcPc.exits : ProcPc → Nat
  | .exited => 1
  | _ => 0

/-- The number of group processes of the run that have exited. -/
def State.numExited (s : State S) : Nat := ∑ l, (s.proc l).exits

/-- The results printed so far. -/
def State.printed (s : State S) : Nat :=
  match s.parent with
  | .next => s.run + 1
  | .exited => s.run + 1
  | _ => s.run

/-- **What is in the buffers and in the file.** -/
structure OutInv (s : State S) : Prop where
  stdout : results s.stdout = List.range s.printed
  group : ∀ l, s.proc l ≠ .absent → s.proc l ≠ .exited →
    results (s.procStdout l) = List.range s.run
  file : results s.file = written S.numGroups s.run ++ copies s.numExited (List.range s.run) ++
    if s.parent = .exited then List.range (s.run + 1) else []

theorem numExited_update {l : S.Task} {pc : ProcPc} (h : pc.exits = (s.proc l).exits) :
    ∑ u, (Function.update s.proc l pc u).exits = s.numExited :=
  sum_update_eq (fun _ => ProcPc.exits) s.proc h

theorem OutInv.stdout_step (h : OutInv s) (hs : Step S s s') :
    results s'.stdout = List.range s'.printed := by
  have ho := h.stdout
  cases hs with
  | print hpc =>
    rw [State.printed, hpc] at ho
    rw [results_append, ho, results_singleton]
    exact List.range_succ.symm
  | again hpc =>
    rw [State.printed, hpc] at ho
    exact ho
  | finish hpc =>
    rw [State.printed, hpc] at ho
    exact ho
  | fork _ hpc => rwa [State.printed, hpc] at ho
  | forkSkip _ hpc => rwa [State.printed, hpc] at ho
  | forked hpc => rwa [State.printed, hpc] at ho
  | join _ hpc => rwa [State.printed, hpc] at ho
  | joinSkip _ hpc => rwa [State.printed, hpc] at ho
  | joined hpc => rwa [State.printed, hpc] at ho
  | _ => exact ho

theorem OutInv.group_step (h : OutInv s) (hs : Step S s s') :
    ∀ l, s'.proc l ≠ .absent → s'.proc l ≠ .exited →
      results (s'.procStdout l) = List.range s'.run := by
  intro l
  have hg := h.group l
  have ho := h.stdout
  cases hs <;> simp only [State.setProc, State.setThread, State.startRun, Function.update_apply] <;>
    grind [State.printed]

theorem State.numExited_joined (hi : Inv s) (hj : ∀ l : S.Task, s.parent.PastJoin l) :
    s.numExited = S.numGroups := by
  refine Finset.sum_congr rfl fun l _ => ?_
  by_cases hl : S.IsLeader l
  · rw [hi.joined l hl (hj l), if_pos hl]
    rfl
  · have habs : s.proc l = .absent := not_ne_iff.mp fun hne => hl (hi.isLeader hne)
    rw [habs, if_neg hl]
    rfl

/-- What the file holds in `s` if it holds `out`. -/
def State.Filed (s : State S) (out : List Line) : Prop :=
  results out = written S.numGroups s.run ++ copies s.numExited (List.range s.run) ++
    if s.parent = .exited then List.range (s.run + 1) else []

theorem State.filed_of {out : List Line} {k r : Nat} (hrun : s.run = r) (hex : s.numExited = k)
    (hp : s.parent ≠ .exited)
    (hout : results out = written S.numGroups r ++ copies k (List.range r)) : s.Filed out := by
  unfold State.Filed
  rw [hrun, hex, if_neg hp, List.append_nil, hout]

theorem OutInv.file_same (h : OutInv s) (hrun : s'.run = s.run)
    (hex : s'.numExited = s.numExited) (hp : s'.parent = .exited ↔ s.parent = .exited) :
    s'.Filed s.file := by
  unfold State.Filed
  rw [h.file, hrun, hex]
  simp only [hp]

theorem OutInv.file_step (h : OutInv s) (hi : Inv s) (hs : Step S s s') : s'.Filed s'.file := by
  cases hs with
  | fork t hpc hl =>
    have habs : s.proc t = .absent :=
      not_ne_iff.mp fun hne => Nat.lt_irrefl t.val (by
        have := ((hi.forked t).mp hne).2
        rwa [hpc] at this)
    exact h.file_same rfl (numExited_update (by rw [habs]; rfl)) (by simp [hpc])
  | forkSkip t hpc => exact h.file_same rfl rfl (by simp [hpc])
  | forked hpc => exact h.file_same rfl rfl (by simp [hpc])
  | join t hpc => exact h.file_same rfl rfl (by simp [hpc])
  | joinSkip t hpc => exact h.file_same rfl rfl (by simp [hpc])
  | joined hpc => exact h.file_same rfl rfl (by simp [hpc])
  | print hpc => exact h.file_same rfl rfl (by simp [hpc])
  | again hpc hr =>
    -- the finished run joins the past ones
    have hall : s.numExited = S.numGroups := State.numExited_joined hi fun l => by rw [hpc]; trivial
    have hf := h.file
    rw [hall, hpc, if_neg (by decide), List.append_nil, ← written_succ] at hf
    have hnone : (s.startRun (s.run + 1)).numExited = 0 :=
      Finset.sum_eq_zero fun _ _ => rfl
    exact State.filed_of (r := s.run + 1) rfl hnone nofun (hf.trans (by simp [copies]))
  | finish hpc hr =>
    have hf := h.file
    have ho := h.stdout
    rw [hpc, if_neg (by decide), List.append_nil] at hf
    rw [State.printed, hpc] at ho
    unfold State.Filed
    rw [results_append, hf, ho, if_pos rfl]
    rfl
  | exit l hpc =>
    have hg := h.group l (by rw [hpc]; nofun) (by rw [hpc]; nofun)
    have hx : s.parent ≠ .exited := by
      intro hx
      have hl := hi.isLeader (l := l) (by rw [hpc]; nofun)
      have := hi.joined l hl (by rw [hx]; trivial)
      rw [hpc] at this
      cases this
    have hn : ({ s.setProc l .exited with file := s.file ++ s.procStdout l }).numExited =
        s.numExited + 1 := by
      have := sum_update (fun _ => ProcPc.exits) s.proc l .exited
      rw [hpc] at this
      exact this
    have hf := h.file
    rw [if_neg hx, List.append_nil] at hf
    exact State.filed_of (r := s.run) rfl hn hx
      (by rw [results_append, hf, hg, copies_succ, List.append_assoc])
  | initGroup l hpc => exact h.file_same rfl (numExited_update (by rw [hpc]; rfl)) Iff.rfl
  | spawn l t hpc => exact h.file_same rfl (numExited_update (by rw [hpc]; rfl)) Iff.rfl
  | spawnSkip l t hpc => exact h.file_same rfl (numExited_update (by rw [hpc]; rfl)) Iff.rfl
  | spawned l hpc => exact h.file_same rfl (numExited_update (by rw [hpc]; rfl)) Iff.rfl
  | led l hpc => exact h.file_same rfl (numExited_update (by rw [hpc]; rfl)) Iff.rfl
  | joinThread l t hpc => exact h.file_same rfl (numExited_update (by rw [hpc]; rfl)) Iff.rfl
  | joinThreadSkip l t hpc => exact h.file_same rfl (numExited_update (by rw [hpc]; rfl)) Iff.rfl
  | joinedThreads l hpc => exact h.file_same rfl (numExited_update (by rw [hpc]; rfl)) Iff.rfl
  | _ => exact h.file_same rfl rfl Iff.rfl

theorem OutInv.start : OutInv (State.start S) where
  stdout := results_warnings S.warnings
  group _ h := absurd rfl h
  file := by
    have hnone : (State.start S).numExited = 0 := Finset.sum_eq_zero fun _ _ => rfl
    rw [hnone, if_neg (by simp [State.start])]
    simp [State.start, written, copies]

theorem OutInv.of_reachable (h : Reachable S s) : OutInv s := by
  induction h with
  | refl => exact OutInv.start
  | tail hpath hs ih =>
    have hi := Inv.of_reachable hpath
    exact ⟨ih.stdout_step hs, ih.group_step hs, ih.file_step hi hs⟩

/-! ## The output file -/

theorem Inv.last_run (h : Reachable S s) (hx : s.parent = .exited) : s.run + 1 = S.runs := by
  induction h with
  | refl => cases hx
  | tail _ hs ih =>
    cases hs with
    | finish _ hr => exact hr
    | fork => cases hx
    | forkSkip => cases hx
    | forked => cases hx
    | join => cases hx
    | joinSkip => cases hx
    | joined => cases hx
    | print => cases hx
    | again => cases hx
    | _ => exact ih hx

/-- **The output file** after the last run: what the group processes wrote, then
each line once. -/
theorem results_file (h : Reachable S s) (hx : s.parent = .exited) :
    results s.file = written S.numGroups S.runs ++ List.range S.runs := by
  have hall : s.numExited = S.numGroups :=
    State.numExited_joined (Inv.of_reachable h) fun l => by rw [hx]; trivial
  have hf := (OutInv.of_reachable h).file
  rwa [hall, if_pos hx, ← written_succ, Inv.last_run h hx] at hf

/-- **Each result is reported exactly once only in a batch of one run.** -/
theorem reportedOnce_iff (S : Setup) : ReportedOnce S ↔ S.runs = 1 := by
  rw [← written_eq_nil S.numGroups_pos S.runs_pos]
  constructor
  · intro h
    obtain ⟨s, hs, hx⟩ := (Inv.start (S := S)).exists_exited
    have hf := results_file hs hx
    rw [h s hs hx] at hf
    exact List.self_eq_append_left.mp hf
  · intro hnil s hs hx
    rw [results_file hs hx, hnil, List.nil_append]

/-- One task in a batch of two runs. -/
def twoRuns : Setup := .solo 2 Nat.two_pos

/-- The group process of the second run writes the first run's line again, so
the file holds the lines of the runs 0, 0 and 1. -/
theorem not_reportedOnce_twoRuns : ¬ReportedOnce twoRuns := by
  intro h
  obtain ⟨s, hs, hx⟩ := (Inv.start (S := twoRuns)).exists_exited
  have hfile : results s.file = [0, 0, 1] := results_file hs hx
  rw [h s hs hx] at hfile
  exact absurd hfile (by decide)

end Chronos.Run
