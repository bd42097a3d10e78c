import Chronos.Task.Hyperperiod
import Chronos.Taskset.Locks

/-!
# Periods as divisors

A period is stored as it stands in the file. `calculate_releases` divides by it, and
with `-z` it goes into `taskset_lcm` instead.
-/

namespace Chronos.Taskset

open Lib

/-- The period on a task line. -/
def Item.period : Item → Option Nat
  | .task w _ => some (toULong w.period.value)
  | _ => none

/-- The periods in the file, the last task first as in the array. -/
def filePeriods (items : List Item) : List Nat := (items.filterMap Item.period).reverse

/-- **No division by zero** in what `run_test` computes with the periods: the
hyper-period if there is no run, or else the releases of each task. -/
def NoDivisionByZero {σ : Type} (noRun : Bool) (T : Tester σ) : Prop :=
  if noRun then tasksetLcm (T.taskList.map Task.period) ≠ .error .divisionByZero
  else ∀ t ∈ T.taskList, t.calculateReleases T.options ≠ none

/-- The periods are not zero; if there is no run, no round of `taskset_lcm` is one that
divides by zero. -/
def PeriodsDivide (noRun : Bool) : List Nat → Prop
  | [] => True
  | period :: periods =>
    if noRun then NoRoundDividesByZero (toLong period) periods
    else ∀ p ∈ period :: periods, p ≠ 0

section

variable {σ : Type} {A : Allocator σ} {m : Machine} {T T' : Tester σ} {items : List Item}
  {item : Item} {noRun : Bool}

theorem filePeriods_append :
    filePeriods (items ++ [item]) = item.period.toList ++ filePeriods items := by
  unfold filePeriods
  cases h : item.period <;> simp [h]

/-- The tasks have the periods in the file. -/
theorem periods_loadItem (h : T.taskList.map Task.period = filePeriods items)
    (hload : loadItem A m T item = .ok T') :
    T'.taskList.map Task.period = filePeriods (items ++ [item]) := by
  rw [filePeriods_append, ← h]
  rcases loadItem_cases hload with ⟨w, optional, mask, rfl, -, -, -, htasks⟩ | ⟨hother, -, hfields⟩
  · rw [htasks, List.map_cons, initGroupLeader_field Task.period (fun _ _ => rfl),
      taskOf_field Task.period fun _ _ _ => rfl]
    rfl
  · have hnone : item.period = none := by
      cases item with
      | task w optional => exact absurd rfl (hother w optional)
      | comment => rfl
      | locks w => rfl
      | group g w => rfl
    rw [hnone, hfields Task.period fun _ _ => rfl]
    rfl

theorem lt_of_mem_filePeriods {p : Nat} (hp : p ∈ filePeriods items) : p < 2 ^ 64 := by
  obtain ⟨item, -, hitem⟩ := List.mem_filterMap.mp (List.mem_reverse.mp hp)
  cases item with
  | task w optional =>
    cases hitem
    unfold toULong
    omega
  | comment => cases hitem
  | locks w => cases hitem
  | group g w => cases hitem

theorem calculateReleases_eq_none_iff {t : Task} {o : Options} :
    t.calculateReleases o = none ↔ t.period = 0 := by
  unfold Task.calculateReleases
  dsimp only
  split <;> simp_all

/-- **No division by zero** happens exactly if the periods in the file divide. -/
theorem noDivisionByZero_iff {options : Options} {heap : σ} {f : List Char}
    (h : initTasks A m (some f) (Tester.start options heap) = .ok T) :
    ∃ items ∈ lex f, (NoDivisionByZero noRun T ↔ PeriodsDivide noRun (filePeriods items)) := by
  obtain ⟨items, T₀, heap, hlex, hperiods, -, hne, rfl⟩ :=
    initTasks_invariant (fun items T => T.taskList.map Task.period = filePeriods items) h
      (fun _ => rfl) fun _ _ _ _ hP hload => periods_loadItem hP hload
  refine ⟨items, hlex, ?_⟩
  have hlt : ∀ p ∈ T₀.taskList.map Task.period, p < 2 ^ 64 :=
    hperiods ▸ fun p => lt_of_mem_filePeriods
  rw [← hperiods]
  unfold NoDivisionByZero
  cases htasks : T₀.taskList with
  | nil => exact absurd htasks hne
  | cons t ts =>
    rw [htasks] at hlt
    cases noRun with
    | true =>
      simp only [if_true, List.map_cons, PeriodsDivide, tasksetLcm]
      exact foldlM_lcmStep_ne_zero_iff fun p hp => hlt p (List.mem_cons_of_mem _ hp)
    | false =>
      simp only [Bool.false_eq_true, if_false, List.map_cons, PeriodsDivide, ne_eq,
        calculateReleases_eq_none_iff]
      rw [← List.map_cons, List.forall_mem_map]

/-- Periods from an `int` with a least common multiple that fits a `long` divide. -/
theorem periodsDivide_of_lcm {period : Nat} {periods : List Nat}
    (h : ∀ p ∈ period :: periods, 0 < p ∧ p < 2 ^ 31)
    (hlcm : periods.foldl Nat.lcm period < 2 ^ 63) : PeriodsDivide noRun (period :: periods) := by
  cases noRun with
  | true =>
    have hperiod := h period List.mem_cons_self
    have hrest := fun p hp => h p (List.mem_cons_of_mem period hp)
    have hlong : toLong (period : Int) = period := toLong_eq_self (by omega) (by omega)
    simp only [PeriodsDivide, if_true, hlong]
    have hlt : ∀ p ∈ periods, p < 2 ^ 64 := fun p hp => (hrest p hp).2.trans (by norm_num)
    rw [← foldlM_lcmStep_ne_zero_iff hlt, foldlM_lcmStep_eq hperiod.1 hrest hlcm]
    nofun
  | false =>
    simp only [PeriodsDivide, Bool.false_eq_true, if_false]
    exact fun p hp => (h p hp).1.ne'

end

/-! ## A period of zero -/

def zeroPeriod : List Char := "L 0\nT 0 1 0 0 150000 17\n".toList

/-- What reading it leaves, with locking turned off. -/
def zeroPeriodTester : Tester Unit where
  options := { sampleOptions with locking := NO_LOCKING }
  heap := ()
  domainMasks := [1, 0, 0, 0]
  numLocks := 0
  taskList := [{ freshTask with
    cpuMask := 1
    threadGroup := 1
    execTime := 150000
    utility := 17
    taskWss := 0 }]
  seenGroup := false
  warnings :=
    ["Locking enabled, but the taskset file doesn't specify locks. Turning locking off."]

theorem initTasks_zeroPeriod : initTasks sampleAllocator sampleMachine (some zeroPeriod)
    (Tester.start sampleOptions ()) = .ok zeroPeriodTester := by
  decide +kernel

/-- Two tasks with periods whose lower halves are zero. -/
def longPeriods : List Char :=
  "L 0\nT 0 1 0 8589934592 150000 17\nT 0 1 0 4294967296 150000 17\n".toList

/-- What reading it leaves, with locking turned off. -/
def longPeriodsTester : Tester Unit :=
  { zeroPeriodTester with
    taskList := zeroPeriodTester.taskList.flatMap fun t =>
      [{ t with period := 4294967296, periodTs := ⟨4294, 967296000⟩ },
        { t with period := 8589934592, periodTs := ⟨8589, 934592000⟩ }] }

theorem initTasks_longPeriods : initTasks sampleAllocator sampleMachine (some longPeriods)
    (Tester.start sampleOptions ()) = .ok longPeriodsTester := by
  decide +kernel

/-- A run divides by a period of zero. By the two long periods it does not, but with `-z` the
smaller one is a divisor in `gcd`, of which an `int` keeps the lower half. -/
theorem noDivisionByZero_iff_zeroPeriod :
    (∃ items ∈ lex zeroPeriod, ¬NoDivisionByZero false zeroPeriodTester ∧
      ¬PeriodsDivide false (filePeriods items)) ∧
    ∃ items ∈ lex longPeriods,
      (NoDivisionByZero false longPeriodsTester ∧ PeriodsDivide false (filePeriods items)) ∧
        ¬NoDivisionByZero true longPeriodsTester ∧ ¬PeriodsDivide true (filePeriods items) := by
  have hzero : ¬NoDivisionByZero false zeroPeriodTester :=
    fun h => h _ List.mem_cons_self (calculateReleases_eq_none_iff.mpr rfl)
  have hlong : ∀ items ∈ lex longPeriods, filePeriods items = [2 ^ 32, 2 ^ 33] := by
    decide +kernel
  have hrun : PeriodsDivide false [2 ^ 32, 2 ^ 33] := by simp [PeriodsDivide]
  have hnoRun : ¬PeriodsDivide true [2 ^ 32, 2 ^ 33] := fun h => h.1 (by decide)
  obtain ⟨items, hitems, hiff⟩ : ∃ items ∈ lex zeroPeriod, (NoDivisionByZero false _ ↔ _) :=
    noDivisionByZero_iff initTasks_zeroPeriod
  refine ⟨⟨items, hitems, hzero, mt hiff.mpr hzero⟩, ?_⟩
  obtain ⟨items, hitems, hiff⟩ : ∃ items ∈ lex longPeriods, (NoDivisionByZero false _ ↔ _) :=
    noDivisionByZero_iff initTasks_longPeriods
  obtain ⟨items', hitems', hiff'⟩ : ∃ items ∈ lex longPeriods, (NoDivisionByZero true _ ↔ _) :=
    noDivisionByZero_iff initTasks_longPeriods
  obtain rfl : items = items' := Option.some.inj (hitems.symm.trans hitems')
  rw [← hlong items hitems] at hrun hnoRun
  exact ⟨items, hitems, ⟨hiff.mpr hrun, hrun⟩, mt hiff'.mp hnoRun, hnoRun⟩

theorem not_noDivisionByZero_zeroPeriod :
    sampleOptions.Accepted ∧
      initTasks sampleAllocator sampleMachine (some zeroPeriod) (Tester.start sampleOptions ()) =
        .ok zeroPeriodTester ∧
      ¬NoDivisionByZero false zeroPeriodTester := by
  refine ⟨by decide, initTasks_zeroPeriod, fun h => ?_⟩
  exact h _ List.mem_cons_self (calculateReleases_eq_none_iff.mpr rfl)

end Chronos.Taskset
