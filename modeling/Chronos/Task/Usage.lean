import Chronos.Task.Locking
import Mathlib.Tactic.Simproc.Divisors

/-!
# What a job declares and what it executes

`set_lock_usage` splits the execution time of a task by the length of its
critical section, in doubles. A job declares both parts to the kernel. The
locked part is only executed in the critical section, so what counts is whether
there is one, and if there is none whether the locked part vanishes.
-/

namespace Chronos

open Lib

def Event.usage : Event → Nat
  | .work u => u
  | _ => 0

namespace Trace

variable {a b : Trace}

/-- The sum of the arguments passed to `workload_do_work`. -/
def usage (a : Trace) : Nat := (a.events.map Event.usage).sum

@[simp] theorem usage_nil : nil.usage = 0 := rfl

@[simp] theorem usage_doWork (u : Nat) (r : Bool) : (doWork u r).usage = u := by
  simp [usage, doWork, Event.usage]

@[simp] theorem usage_emit (e : Event) : (emit e).usage = e.usage := by
  simp [usage, emit]

theorem usage_andThen (h : a.crashed = false) : (a.andThen b).usage = a.usage + b.usage := by
  simp [usage, events_andThen h]

end Trace

open Trace

variable {env : JobEnv} {t : Task}

/-! ## The critical section -/

@[simp] theorem usage_lockLoop (i : Nat) (ms : List Int) (last : Int) :
    (lockLoop env i ms last).1.usage = 0 := by
  induction ms generalizing i last with
  | nil => rfl
  | cons m ms ih =>
    unfold lockLoop
    split
    · rw [usage_andThen (by simp), ih]
      rfl
    · rfl

@[simp] theorem usage_unlockLoop (locks : List Int) (n : Nat) :
    (unlockLoop locks n).usage = 0 := by
  induction n with
  | zero => rfl
  | succ n ih =>
    unfold unlockLoop
    split
    · rw [usage_andThen (by simp), ih]
      rfl
    · rfl

/-- The nested branch executes the locked part once, however many locks there are. -/
theorem usage_nestedLocking : (nestedLocking env t).usage = t.lockedUsage := by
  unfold nestedLocking
  simp [usage_andThen]

theorem crashed_nestedLocking (h : ∀ i, env.lockOk i = true) (ht : 0 < t.numMyLocks) :
    (nestedLocking env t).crashed = false := by
  have hpos : 0 < acquired env 0 t.myLocks := (acquired_pos_iff t.myLocks).mpr ⟨ht, h 0⟩
  exact (balanced_nestedLocking hpos).1

/-- Without locks it reads `my_locks[0]` when the local holds 0. -/
theorem crashed_nestedLocking_of_no_locks (ht : t.numMyLocks = 0) (hlast : env.last = 0) :
    (nestedLocking env t).crashed = true := by
  have hnil : t.myLocks = [] := List.eq_nil_of_length_eq_zero ht
  simp [nestedLocking, lockLoop, unlockLoop, hnil, hlast, crash]

theorem crashed_segment (T : Test) :
    (segment T env t).crashed = (criticalSections T.options.locking env t).crashed := by
  simp [segment]

theorem usage_setupHuaAbortHandler (T : Test) (t : Task) :
    (setupHuaAbortHandler T t).usage = 0 := by
  unfold setupHuaAbortHandler
  split <;> rfl

theorem usage_segment (T : Test) (h : (criticalSections T.options.locking env t).crashed = false) :
    (segment T env t).usage =
      (criticalSections T.options.locking env t).usage + t.unlockedUsage := by
  unfold segment
  rw [usage_andThen (by simp [h]), usage_andThen (by simp [h]), usage_andThen (by simp),
    usage_andThen (by simp), usage_setupHuaAbortHandler]
  simp [Event.usage]

/-- A job that is not aborted and whose lock calls all succeed runs to its end,
and the times it executes add up to the time it declares. -/
def ExecutesDeclared (T : Test) (t : Task) : Prop :=
  ∀ env : JobEnv, (∀ i, env.lockOk i = true) → (∀ i, env.lockedAborts i = false) →
    env.unlockedAborts = false →
      (segment T env t).crashed = false ∧ (segment T env t).usage % 2 ^ 64 = t.declaredUsage

theorem executesDeclared_of_locking {T : Test} (hl : T.options.locking &&& NESTED_LOCKING ≠ 0) :
    ExecutesDeclared T t ↔ 0 < t.numMyLocks := by
  have hcs (env : JobEnv) : criticalSections T.options.locking env t = nestedLocking env t :=
    (criticalSections_eq _).trans (if_pos hl)
  constructor
  · intro h
    by_contra ht
    let env : JobEnv := ⟨0, fun _ => true, fun _ => false, false, 0, 0, 0, 0⟩
    have hcrash := (h env (fun _ => rfl) (fun _ => rfl) rfl).1
    rw [crashed_segment, hcs, crashed_nestedLocking_of_no_locks (by omega) rfl] at hcrash
    cases hcrash
  · intro ht env hok _ _
    have hnc : (criticalSections T.options.locking env t).crashed = false := by
      rw [hcs]
      exact crashed_nestedLocking hok ht
    constructor
    · rw [crashed_segment, hnc]
    · rw [usage_segment T hnc, hcs, usage_nestedLocking, Nat.add_comm]
      rfl

/-- Without a critical section the locked part is declared and not executed. -/
theorem executesDeclared_of_no_locking {T : Test}
    (hl : T.options.locking &&& NESTED_LOCKING = 0) (hlocked : t.lockedUsage < 2 ^ 64) :
    ExecutesDeclared T t ↔ t.lockedUsage = 0 := by
  have hcs (env : JobEnv) : criticalSections T.options.locking env t = .nil :=
    (criticalSections_eq _).trans (if_neg (not_not.mpr hl))
  have hseg (env : JobEnv) :
      (segment T env t).crashed = false ∧ (segment T env t).usage = t.unlockedUsage := by
    have hnc : (criticalSections T.options.locking env t).crashed = false := by
      rw [hcs, crashed_nil]
    constructor
    · rw [crashed_segment, hnc]
    · rw [usage_segment T hnc, hcs, usage_nil, Nat.zero_add]
  constructor
  · intro h
    let env : JobEnv := ⟨0, fun _ => true, fun _ => false, false, 0, 0, 0, 0⟩
    have hsum := (h env (fun _ => rfl) (fun _ => rfl) rfl).2
    rw [(hseg env).2] at hsum
    unfold Task.declaredUsage at hsum
    omega
  · intro hzero env _ _ _
    refine ⟨(hseg env).1, ?_⟩
    rw [(hseg env).2, Task.declaredUsage, hzero, Nat.add_zero]

/-! ## The locked part in doubles -/

namespace Task

/-- `t->exec_time * usage * cs` -/
def lockedProduct (execTime : Nat) (cpuUsage csLength : Int) : ℚ :=
  fl (fl (fl execTime * fl (fl cpuUsage / 100)) * fl (fl csLength / 100))

theorem near_percent (n : Int) : Near 2 (n / 100) (fl (fl n / 100)) := by
  have hord := Ordinary.int_div n (D := 100) (by norm_num) (by norm_num)
  rw [Nat.cast_ofNat] at hord
  exact ((Near.int n).div 100).fl (by norm_num) hord

/-- **Seven roundings** separate the double from the exact product. -/
theorem near_lockedProduct (execTime : Nat) (cpuUsage csLength : Int) :
    Near 7 ((execTime * cpuUsage * csLength : Int) / 10000)
      (lockedProduct execTime cpuUsage csLength) := by
  have hE : Near 1 (execTime : ℚ) (fl execTime) := by
    simpa using Near.int (execTime : Int)
  have h1 := hE.mul (near_percent cpuUsage)
  have e1 : (execTime : ℚ) * (cpuUsage / 100) = ((execTime * cpuUsage : Int) : ℚ) / (100 : Nat) := by
    push_cast
    ring
  have h2 := h1.fl (by norm_num)
    (e1 ▸ Ordinary.int_div (execTime * cpuUsage) (by norm_num) (by norm_num))
  have h3 := h2.mul (near_percent csLength)
  have e2 : (execTime : ℚ) * (cpuUsage / 100) * (csLength / 100) =
      ((execTime * cpuUsage * csLength : Int) : ℚ) / (10000 : Nat) := by
    push_cast
    ring
  have h4 := h3.fl (by norm_num)
    (e2 ▸ Ordinary.int_div (execTime * cpuUsage * csLength) (by norm_num) (by norm_num))
  rw [e2] at h4
  exact h4

theorem abs_lockedProduct (execTime : Nat) (cpuUsage csLength : Int) :
    |lockedProduct execTime cpuUsage csLength| =
      |lockedProduct execTime cpuUsage.natAbs csLength.natAbs| := by
  obtain h | h := Int.natAbs_eq cpuUsage <;> obtain h' | h' := Int.natAbs_eq csLength <;>
  · rw [h, h']
    simp [lockedProduct, neg_div]

def divisorsOfTenThousand : List Nat :=
  [1, 2, 4, 5, 8, 10, 16, 20, 25, 40, 50, 80, 100, 125, 200, 250, 400, 500, 625, 1000, 1250,
    2000, 2500, 5000, 10000]

theorem mem_divisorsOfTenThousand {n : Nat} (h : n ∣ 10000) : n ∈ divisorsOfTenThousand := by
  have : n ∈ Nat.divisors 10000 := Nat.mem_divisors.mpr ⟨h, by norm_num⟩
  simpa only [Nat.divisors_ofNat, divisorsOfTenThousand, Finset.mem_insert, Finset.mem_singleton,
    List.mem_cons, List.not_mem_nil, or_false] using this

/-- Where the exact product is 1, so is the double. -/
theorem lockedProduct_eq_one : ∀ e ∈ divisorsOfTenThousand, ∀ c ∈ divisorsOfTenThousand,
    ∀ k ∈ divisorsOfTenThousand, e * c * k = 10000 → lockedProduct e c k = 1 := by
  decide +kernel

/-- **The locked part is below 1** in doubles exactly when it is in the integers. -/
theorem abs_lockedProduct_lt_one (execTime : Nat) (cpuUsage csLength : Int) :
    |lockedProduct execTime cpuUsage csLength| < 1 ↔
      |(execTime * cpuUsage * csLength : Int)| < 10000 := by
  have hpow' : (10000 / 10001 : ℚ) ≤ (1 - 2 ^ (-53 : ℤ)) ^ 7 := by norm_num
  obtain ⟨d, hd, hd', heq⟩ := near_lockedProduct execTime cpuUsage csLength
  have hd0 : 0 ≤ d := le_trans (by norm_num) hd
  set p : Int := execTime * cpuUsage * csLength with hp
  have habs : |lockedProduct execTime cpuUsage csLength| = |(p : ℚ)| / 10000 * d := by
    rw [heq, abs_mul, abs_div, abs_of_nonneg hd0]
    norm_num
  rcases lt_trichotomy |p| 10000 with hlt | hEq | hgt
  · have hle : |(p : ℚ)| ≤ 9999 := by exact_mod_cast Int.le_sub_one_of_lt hlt
    refine ⟨fun _ => hlt, fun _ => ?_⟩
    rw [habs]
    calc |(p : ℚ)| / 10000 * d ≤ 9999 / 10000 * (1 + 2 ^ (-53 : ℤ)) ^ 7 :=
          mul_le_mul (by linarith) hd' hd0 (by norm_num)
      _ < 1 := by norm_num
  · have hone : lockedProduct execTime cpuUsage.natAbs csLength.natAbs = 1 := by
      have hprod : execTime * cpuUsage.natAbs * csLength.natAbs = 10000 := by
        have habs : p.natAbs = 10000 := by
          rw [Int.abs_eq_natAbs] at hEq
          exact_mod_cast hEq
        rwa [hp, Int.natAbs_mul, Int.natAbs_mul, Int.natAbs_natCast] at habs
      apply lockedProduct_eq_one execTime ?_ cpuUsage.natAbs ?_ csLength.natAbs ?_ hprod <;>
        apply mem_divisorsOfTenThousand
      · exact ⟨cpuUsage.natAbs * csLength.natAbs, by rw [← hprod, Nat.mul_assoc]⟩
      · exact ⟨execTime * csLength.natAbs, by rw [← hprod]; ring⟩
      · exact ⟨execTime * cpuUsage.natAbs, by rw [← hprod, Nat.mul_comm]⟩
    rw [abs_lockedProduct, hone]
    simp [hEq]
  · have hge : (10001 : ℚ) ≤ |(p : ℚ)| := by exact_mod_cast Int.add_one_le_of_lt hgt
    refine ⟨fun h => absurd h ?_, fun h => absurd h (by omega)⟩
    rw [habs, not_lt]
    calc (1 : ℚ) = 10001 / 10000 * (10000 / 10001) := by norm_num
      _ ≤ |(p : ℚ)| / 10000 * d :=
        mul_le_mul (by linarith) (hpow'.trans hd) (by norm_num) (by positivity)

theorem toUnsignedLong_lt (undefined : ℚ → Nat) (x : ℚ) :
    toUnsignedLong undefined x < 2 ^ 64 := by
  unfold toUnsignedLong
  split
  · next h =>
    have : ⌊x⌋ < 2 ^ 64 := by
      rw [Int.floor_lt]
      exact_mod_cast h.2
    omega
  · exact Nat.mod_lt _ (by norm_num)

/-- Outside its range a conversion may give anything, so only a magnitude below 1
is sure to give 0. -/
theorem toUnsignedLong_eq_zero_iff (x : ℚ) :
    (∀ undefined : ℚ → Nat, toUnsignedLong undefined x = 0) ↔ |x| < 1 := by
  rw [abs_lt]
  constructor
  · intro h
    have h1 := h fun _ => 1
    unfold toUnsignedLong at h1
    split at h1
    · next hx =>
      refine ⟨hx.1, ?_⟩
      have : ⌊x⌋ < 1 := by omega
      exact_mod_cast Int.floor_lt.mp this
    · norm_num at h1
  · rintro ⟨hlo, hhi⟩ undefined
    have hlt : x < 2 ^ 64 := hhi.trans (by norm_num)
    have : ⌊x⌋ < 1 := by
      rw [Int.floor_lt]
      exact_mod_cast hhi
    rw [toUnsignedLong, if_pos ⟨hlo, hlt⟩]
    omega

@[simp] theorem setLockUsage_lockedUsage (undefined : ℚ → Nat) (o : Options) (t : Task) :
    (setLockUsage undefined o t).lockedUsage =
      toUnsignedLong undefined (lockedProduct t.execTime o.cpuUsage o.csLength) := rfl

@[simp] theorem setLockUsage_numMyLocks (undefined : ℚ → Nat) (o : Options) (t : Task) :
    (setLockUsage undefined o t).numMyLocks = t.numMyLocks := rfl

end Task

/-! ## Jobs of a run -/

theorem initializeTestLocks_cpuUsage (numLocks : Int) (o : Options) :
    (initializeTestLocks numLocks o).2.cpuUsage = o.cpuUsage ∧
      (initializeTestLocks numLocks o).2.csLength = o.csLength := by
  unfold initializeTestLocks
  dsimp only
  constructor
  · split <;> rfl
  · split <;> rfl

/-- **A job executes what it declares**, in a run with the options that the
taskset leaves behind, exactly when it has a critical section and a lock, or
has no critical section and the locked part of its execution time is nothing. -/
theorem executesDeclared_iff (o : Options) (numLocks : Int) (lockTime : Nat) (start : Timespec)
    (t : Task) :
    (∀ undefined, ExecutesDeclared ⟨(initializeTestLocks numLocks o).2, numLocks, lockTime, start⟩
      (t.setLockUsage undefined (initializeTestLocks numLocks o).2)) ↔
      ((initializeTestLocks numLocks o).2.locking &&& NESTED_LOCKING ≠ 0 ∧ 0 < t.numMyLocks) ∨
        ((initializeTestLocks numLocks o).2.locking &&& NESTED_LOCKING = 0 ∧
          |(t.execTime * o.cpuUsage * o.csLength : Int)| < 10000) := by
  obtain ⟨hcpu, hcs⟩ := initializeTestLocks_cpuUsage numLocks o
  by_cases hl : (initializeTestLocks numLocks o).2.locking &&& NESTED_LOCKING = 0
  · have hiff (undefined : ℚ → Nat) := executesDeclared_of_no_locking
      (t := t.setLockUsage undefined (initializeTestLocks numLocks o).2)
      (T := ⟨(initializeTestLocks numLocks o).2, numLocks, lockTime, start⟩) hl
      (Task.toUnsignedLong_lt _ _)
    simp only [hiff, Task.setLockUsage_lockedUsage, hcpu, hcs, Task.toUnsignedLong_eq_zero_iff,
      Task.abs_lockedProduct_lt_one, hl, ne_eq, not_true, false_and, false_or, true_and]
  · have hiff (undefined : ℚ → Nat) := executesDeclared_of_locking
      (t := t.setLockUsage undefined (initializeTestLocks numLocks o).2)
      (T := ⟨(initializeTestLocks numLocks o).2, numLocks, lockTime, start⟩) hl
    simp [hiff, hl]

/-! ## A taskset without locks -/

/-- Options that ask for critical sections of half the execution time, with a
taskset that has no locks: the job declares 1000 µs and executes 500 µs. -/
theorem not_executesDeclared_no_locks :
    nestedOptions.Accepted ∧
      ¬∀ undefined, ExecutesDeclared ⟨(initializeTestLocks 0 nestedOptions).2, 0, 0, ⟨0, 0⟩⟩
        ((sampleTask []).setLockUsage undefined (initializeTestLocks 0 nestedOptions).2) := by
  refine ⟨by decide, fun h => ?_⟩
  have hrun := h (fun _ => 0) ⟨0, fun _ => true, fun _ => false, false, 0, 0, 0, 0⟩
    (fun _ => rfl) (fun _ => rfl) rfl
  revert hrun
  decide +kernel

end Chronos
