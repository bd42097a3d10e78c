import Mathlib.Data.List.Basic

/-!
# Names of schedulers

`sched_algorithms.h` looks names and masks up in a table whose length is written down a second
time, as a number that is larger. A search that finds something ends before that matters.
-/

namespace Chronos.Run

abbrev SCHED_FLAGS_MASK : BitVec 32 := 0x00FF#32

abbrev SCHED_RT_FIFO : BitVec 32 := 0x0000#32
abbrev SCHED_RT_RMA : BitVec 32 := 0x0100#32
abbrev SCHED_RT_EDF : BitVec 32 := 0x0200#32
abbrev SCHED_RT_HVDF : BitVec 32 := 0x0300#32
abbrev SCHED_RT_RMA_ICPP : BitVec 32 := 0x0400#32
abbrev SCHED_RT_RMA_OCPP : BitVec 32 := 0x0500#32
abbrev SCHED_RT_GFIFO : BitVec 32 := 0x8000#32
abbrev SCHED_RT_GRMA : BitVec 32 := 0x8100#32

/-- `struct algorithm` -/
structure Algorithm where
  mask : BitVec 32
  name : List Char
  deriving DecidableEq, Repr

abbrev NUM_ALGORITHMS : Nat := 20

def algorithms : List Algorithm := [
  ⟨SCHED_RT_FIFO, "FIFO".toList⟩,
  ⟨SCHED_RT_RMA, "RMA".toList⟩,
  ⟨SCHED_RT_EDF, "EDF".toList⟩,
  ⟨SCHED_RT_HVDF, "HVDF".toList⟩,
  ⟨SCHED_RT_RMA_ICPP, "RMA-ICPP".toList⟩,
  ⟨SCHED_RT_RMA_OCPP, "RMA-OCPP".toList⟩,
  ⟨SCHED_RT_GFIFO, "GFIFO".toList⟩,
  ⟨SCHED_RT_GRMA, "GRMA".toList⟩]

/-- The loop of both searches, with `left` entries to go. An entry that the table does not
have cannot be read. -/
def searchLoop (p : Algorithm → Bool) : (left i : Nat) → Option (Option Algorithm)
  | 0, _ => some none
  | left + 1, i => do
    let algorithm ← algorithms[i]?
    if p algorithm then return some algorithm else searchLoop p left (i + 1)

/-- `find_scheduler` -/
def findScheduler (schedName : List Char) : Option (BitVec 32) := do
  match ← searchLoop (fun a => schedName = a.name) NUM_ALGORITHMS 0 with
  | some algorithm => return algorithm.mask
  | none => return -1

/-- `get_sched_name`, where a null pointer is `none` -/
def getSchedName (schedMask : BitVec 32) : Option (Option (List Char)) := do
  match ← searchLoop (fun a => schedMask &&& ~~~SCHED_FLAGS_MASK = a.mask) NUM_ALGORITHMS 0 with
  | some algorithm => return some algorithm.name
  | none => return none

/-! ## The search -/

/-- A search with more entries to go than the table has left ends at the first entry it
looks for, or leaves the table. -/
theorem searchLoop_eq (p : Algorithm → Bool) {left i : Nat} (hi : i ≤ algorithms.length)
    (h : algorithms.length < left + i) :
    searchLoop p left i = ((algorithms.drop i).find? p).map some := by
  induction left generalizing i with
  | zero => omega
  | succ left ih =>
    rw [searchLoop]
    by_cases hend : i = algorithms.length
    · simp [hend]
    · have hlt : i < algorithms.length := by omega
      rw [List.getElem?_eq_getElem hlt, List.drop_eq_getElem_cons hlt]
      simp only [Option.bind_eq_bind, Option.bind_some]
      by_cases hp : p algorithms[i]
      · rw [if_pos hp, List.find?_cons_of_pos hp]
        rfl
      · rw [if_neg hp, List.find?_cons_of_neg hp]
        exact ih hlt (by omega)

theorem findScheduler_eq (schedName : List Char) :
    findScheduler schedName =
      (algorithms.find? fun a => schedName = a.name).map Algorithm.mask := by
  rw [findScheduler, searchLoop_eq _ (Nat.zero_le _) (by decide), List.drop_zero]
  cases algorithms.find? fun a => schedName = a.name <;> rfl

theorem getSchedName_eq (schedMask : BitVec 32) :
    getSchedName schedMask =
      (algorithms.find? fun a => schedMask &&& ~~~SCHED_FLAGS_MASK = a.mask).map
        fun a => some a.name := by
  rw [getSchedName, searchLoop_eq _ (Nat.zero_le _) (by decide), List.drop_zero]
  cases algorithms.find? fun a => schedMask &&& ~~~SCHED_FLAGS_MASK = a.mask <;> rfl

/-- The search for a name reads the table only, and gives the mask of its entry, or -1. -/
def FindsScheduler (schedName : List Char) : Prop :=
  findScheduler schedName = some
    (((algorithms.find? fun a => schedName = a.name).map Algorithm.mask).getD (-1))

/-- The search for a mask reads the table only, and gives the name of its entry, or zero. -/
def FindsName (schedMask : BitVec 32) : Prop :=
  getSchedName schedMask = some
    ((algorithms.find? fun a => schedMask &&& ~~~SCHED_FLAGS_MASK = a.mask).map Algorithm.name)

/-- Every entry is the first one with its name, and the first one with its mask, in which no
flag is set. -/
theorem find?_algorithms {a : Algorithm} (ha : a ∈ algorithms) :
    (algorithms.find? fun b => a.name = b.name) = some a ∧
      (algorithms.find? fun b => a.mask = b.mask) = some a ∧
      a.mask &&& ~~~SCHED_FLAGS_MASK = a.mask := by
  revert a
  decide

/-- **Listed names resolve and round trip**, whatever the flags are; a name or a mask that is
not listed makes the search leave the table. -/
theorem schedulers_resolve_iff (schedName : List Char) (schedMask : BitVec 32) :
    (FindsScheduler schedName ↔ ∃ a ∈ algorithms, a.name = schedName) ∧
      (FindsName schedMask ↔
        ∃ a ∈ algorithms, a.mask = schedMask &&& ~~~SCHED_FLAGS_MASK) ∧
      ∀ a ∈ algorithms, ∀ flags, flags &&& ~~~SCHED_FLAGS_MASK = 0 →
        ∃ mask, findScheduler a.name = some mask ∧
          getSchedName (mask ||| flags) = some (some a.name) := by
  refine ⟨?_, ?_, fun a ha flags hflags => ?_⟩
  · rw [FindsScheduler, findScheduler_eq]
    constructor
    · intro h
      obtain ⟨a, hfound, -⟩ := Option.map_eq_some_iff.mp h
      have hname := List.find?_some hfound
      exact ⟨a, List.mem_of_find?_eq_some hfound, (of_decide_eq_true hname).symm⟩
    · rintro ⟨a, ha, rfl⟩
      rw [(find?_algorithms ha).1]
      rfl
  · rw [FindsName, getSchedName_eq]
    constructor
    · intro h
      obtain ⟨a, hfound, -⟩ := Option.map_eq_some_iff.mp h
      have hmask := List.find?_some hfound
      exact ⟨a, List.mem_of_find?_eq_some hfound, (of_decide_eq_true hmask).symm⟩
    · rintro ⟨a, ha, hmask⟩
      rw [← hmask, (find?_algorithms ha).2.1]
      rfl
  · obtain ⟨hname, hmask, hunflagged⟩ := find?_algorithms ha
    refine ⟨a.mask, by rw [findScheduler_eq, hname]; rfl, ?_⟩
    have hstrip : (a.mask ||| flags) &&& ~~~SCHED_FLAGS_MASK = a.mask := by
      rw [BitVec.and_or_distrib_right, hunflagged, hflags]
      exact BitVec.or_zero
    rw [getSchedName_eq, hstrip, hmask]
    rfl

/-- The name of an algorithm that the kernel may have, but not the table. -/
theorem not_findsScheduler_slack : ¬FindsScheduler "SLACK".toList := by
  rw [FindsScheduler, findScheduler_eq]
  decide

theorem schedulers_resolve_iff_edf : FindsScheduler "EDF".toList ∧
    ∃ mask, findScheduler "EDF".toList = some mask ∧
      getSchedName (mask ||| 1#32) = some (some "EDF".toList) := by
  obtain ⟨hname, -, hround⟩ := schedulers_resolve_iff "EDF".toList SCHED_RT_EDF
  have hedf : ⟨SCHED_RT_EDF, "EDF".toList⟩ ∈ algorithms := by decide
  exact ⟨hname.mpr ⟨_, hedf, rfl⟩, hround _ hedf 1#32 (by decide)⟩

end Chronos.Run
