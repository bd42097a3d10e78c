import Chronos.Task.Defs

/-!
# The lock calls of a job

The nested branch of `task_instance` remembers the last index it locked in a
local that is only assigned when a lock call succeeds. With at least one success
the releases mirror the acquisitions; with none the loop that releases starts
from whatever the local held.
-/

namespace Chronos

open Lib

namespace Event

/-- A lock call that fails acquires nothing. -/
def bracket? : Event → Option (Bracket Int)
  | .lock m true => some (.acquire m)
  | .unlock m => some (.release m)
  | _ => none

end Event

namespace Trace

variable {a b c : Trace}

def brackets (a : Trace) : List (Bracket Int) := a.events.filterMap Event.bracket?

/-- Every mutex acquired is released exactly once, in reverse order, no other is
released, and no entry of `my_locks` is used that is not there. -/
def Balanced (a : Trace) : Prop := a.crashed = false ∧ Nested a.brackets

instance (a : Trace) : Decidable a.Balanced := inferInstanceAs (Decidable (_ ∧ _))

@[simp] theorem crashed_nil : nil.crashed = false := by simp only [nil]

@[simp] theorem crashed_emit (e : Event) : (emit e).crashed = false := by simp only [emit]

@[simp] theorem crashed_doWork (u : Nat) (r : Bool) : (doWork u r).crashed = false := by
  simp only [doWork]

@[simp] theorem crashed_andThen : (a.andThen b).crashed = (a.crashed || b.crashed) := by
  unfold andThen
  split
  · next h => simp [h]
  · next h => simp [h]

theorem events_andThen (h : a.crashed = false) :
    (a.andThen b).events = a.events ++ b.events := by
  simp [andThen, h]

@[simp] theorem brackets_nil : nil.brackets = [] := rfl

@[simp] theorem brackets_emit (e : Event) : (emit e).brackets = e.bracket?.toList := by
  cases h : e.bracket? <;> simp [emit, brackets, h]

@[simp] theorem brackets_doWork (u : Nat) (r : Bool) : (doWork u r).brackets = [] := rfl

theorem brackets_andThen (h : a.crashed = false) :
    (a.andThen b).brackets = a.brackets ++ b.brackets := by
  simp [brackets, events_andThen h]

/-- A piece that makes no lock call changes nothing. -/
theorem balanced_andThen_right (hb : b.crashed = false) (hbs : b.brackets = []) :
    (a.andThen b).Balanced ↔ a.Balanced := by
  unfold Balanced
  cases ha : a.crashed
  · simp [ha, hb, hbs, brackets_andThen ha]
  · simp [ha]

theorem balanced_andThen_left (ha : a.crashed = false) (has : a.brackets = []) :
    (a.andThen b).Balanced ↔ b.Balanced := by
  simp [Balanced, ha, has, brackets_andThen ha]

theorem balanced_nil : nil.Balanced := ⟨rfl, .nil⟩

end Trace

open Trace

variable {env : JobEnv} {t : Task}

/-! ## The two loops of the nested branch -/

/-- How many of the lock calls from index `i` on succeed before one fails. -/
def acquired (env : JobEnv) : Nat → List Int → Nat
  | _, [] => 0
  | i, _ :: ms => if env.lockOk i then acquired env (i + 1) ms + 1 else 0

theorem acquired_le (i : Nat) (ms : List Int) : acquired env i ms ≤ ms.length := by
  induction ms generalizing i with
  | nil => simp [acquired]
  | cons m ms ih =>
    unfold acquired
    split
    · simpa using ih (i + 1)
    · simp

theorem acquired_pos_iff (ms : List Int) :
    0 < acquired env 0 ms ↔ 0 < ms.length ∧ env.lockOk 0 = true := by
  cases ms with
  | nil => simp [acquired]
  | cons m ms => by_cases h : env.lockOk 0 <;> simp [acquired, h]

@[simp] theorem crashed_lockLoop (i : Nat) (ms : List Int) (last : Int) :
    (lockLoop env i ms last).1.crashed = false := by
  induction ms generalizing i last with
  | nil => rfl
  | cons m ms ih =>
    unfold lockLoop
    split
    · simp [ih]
    · rfl

theorem brackets_lockLoop (i : Nat) (ms : List Int) (last : Int) :
    (lockLoop env i ms last).1.brackets = (ms.take (acquired env i ms)).map .acquire := by
  induction ms generalizing i last with
  | nil => simp [lockLoop]
  | cons m ms ih =>
    unfold lockLoop acquired
    split
    · simp [brackets_andThen, ih, Event.bracket?]
    · simp [Event.bracket?]

/-- `last` is the index of the last success, and keeps its value without one. -/
theorem last_lockLoop (i : Nat) (ms : List Int) (last : Int) :
    (lockLoop env i ms last).2 =
      if acquired env i ms = 0 then last else (i + acquired env i ms : Nat) - 1 := by
  induction ms generalizing i last with
  | nil => simp [lockLoop, acquired]
  | cons m ms ih =>
    unfold lockLoop acquired
    split
    · simp only [ih]
      split
      · next h => simp [h]
      · simp
        omega
    · simp

theorem unlockLoop_spec (locks : List Int) (n : Nat) (hn : n ≤ locks.length) :
    (unlockLoop locks n).crashed = false ∧
      (unlockLoop locks n).brackets = (locks.take n).reverse.map .release := by
  induction n with
  | zero => simp [unlockLoop]
  | succ n ih =>
    have ⟨hc, hb⟩ := ih (by omega)
    obtain ⟨m, hm⟩ : ∃ m, locks[n]? = some m := ⟨_, List.getElem?_eq_getElem (by omega)⟩
    constructor
    · simp [unlockLoop, hm, hc]
    · simp [unlockLoop, hm, brackets_andThen, hb, Event.bracket?, List.take_add_one]

/-- Releasing with nothing acquired is never balanced. -/
theorem not_balanced_unlockLoop (locks : List Int) (n : Nat) :
    ¬(unlockLoop locks (n + 1)).Balanced := by
  rintro ⟨hc, hn⟩
  unfold unlockLoop at hc hn
  split at hc
  · next m hm =>
    simp only [hm, brackets_andThen, crashed_emit, brackets_emit] at hn
    exact not_nested_release hn
  · cases hc

/-! ## A job -/

/-- With a success, the nested branch releases what it acquired, in reverse order. -/
theorem balanced_nestedLocking (h : 0 < acquired env 0 t.myLocks) :
    (nestedLocking env t).Balanced := by
  have hle : acquired env 0 t.myLocks ≤ t.myLocks.length := acquired_le 0 t.myLocks
  have hlast : ((lockLoop env 0 t.myLocks env.last).2 + 1).toNat = acquired env 0 t.myLocks := by
    rw [last_lockLoop, if_neg (by omega)]
    omega
  obtain ⟨hc, hb⟩ := unlockLoop_spec t.myLocks _ hle
  unfold nestedLocking
  dsimp only
  rw [hlast]
  constructor
  · simp [hc]
  · rw [brackets_andThen (by simp), brackets_andThen (by simp), brackets_lockLoop, hb]
    simpa using Nested.acquires_releases (t.myLocks.take (acquired env 0 t.myLocks))

/-- Without one, it releases from the index that `last` happens to hold. -/
theorem balanced_nestedLocking_iff (h : acquired env 0 t.myLocks = 0) :
    (nestedLocking env t).Balanced ↔ (unlockLoop t.myLocks (env.last + 1).toNat).Balanced := by
  have hb : (lockLoop env 0 t.myLocks env.last).1.brackets = [] := by
    rw [brackets_lockLoop, h]
    rfl
  have hlast : (lockLoop env 0 t.myLocks env.last).2 = env.last := by
    rw [last_lockLoop, if_pos h]
  unfold nestedLocking
  dsimp only
  rw [hlast]
  apply balanced_andThen_left
  · simp
  · rw [brackets_andThen (by simp), hb]
    rfl

@[simp] theorem crashed_setupHuaAbortHandler (T : Test) (t : Task) :
    (setupHuaAbortHandler T t).crashed = false := by
  unfold setupHuaAbortHandler
  split <;> rfl

theorem brackets_setupHuaAbortHandler (T : Test) (t : Task) :
    (setupHuaAbortHandler T t).brackets = [] := by
  unfold setupHuaAbortHandler
  split <;> rfl

theorem balanced_segment_iff (T : Test) :
    (segment T env t).Balanced ↔ (criticalSections T.options.locking env t).Balanced := by
  unfold segment
  rw [balanced_andThen_right rfl rfl, balanced_andThen_right rfl rfl]
  apply balanced_andThen_left
  · simp
  · rw [brackets_andThen (crashed_setupHuaAbortHandler T t), brackets_setupHuaAbortHandler]
    rfl

/-- The sequential flag is part of the nested one, so the sequential branch is
never taken. -/
theorem criticalSections_eq (locking : Nat) : criticalSections locking env t =
    if locking &&& NESTED_LOCKING ≠ 0 then nestedLocking env t else .nil := by
  unfold criticalSections
  split
  · rfl
  · next h =>
    have hzero : locking &&& NESTED_LOCKING = 0 := not_not.mp h
    have hnone : locking &&& LOCKING = 0 :=
      calc locking &&& LOCKING = (locking &&& NESTED_LOCKING) &&& LOCKING := by
            rw [Nat.and_assoc]
            rfl
        _ = 0 := by rw [hzero, Nat.zero_and]
    rw [if_neg (not_not.mpr hnone)]

/-- **A job is balanced** for a pattern of lock results, whatever the
uninitialised local holds, exactly when locking is off or the first lock call is
made and succeeds. -/
theorem balanced_iff (T : Test) (t : Task) (lockOk : Nat → Bool) :
    (∀ env : JobEnv, env.lockOk = lockOk → (segment T env t).Balanced) ↔
      T.options.locking &&& NESTED_LOCKING = 0 ∨ (0 < t.numMyLocks ∧ lockOk 0 = true) := by
  simp only [balanced_segment_iff, criticalSections_eq]
  by_cases hl : T.options.locking &&& NESTED_LOCKING = 0
  · simp [hl, balanced_nil]
  · simp only [hl, ne_eq, not_false_eq_true, if_true, false_or]
    constructor
    · intro h
      -- 0 is an index the local may hold
      let env : JobEnv := ⟨0, lockOk, fun _ => false, false, 0, 0, 0, 0⟩
      have hbal := h env rfl
      by_contra hno
      have hzero : acquired env 0 t.myLocks = 0 :=
        Nat.eq_zero_of_not_pos fun hpos => hno ((acquired_pos_iff t.myLocks).mp hpos)
      rw [balanced_nestedLocking_iff hzero] at hbal
      exact not_balanced_unlockLoop t.myLocks 0 hbal
    · rintro ⟨hn, hok⟩ env rfl
      exact balanced_nestedLocking ((acquired_pos_iff t.myLocks).mpr ⟨hn, hok⟩)

/-! ## A job whose first lock call fails -/

/-- Accepted options that ask for nested locking. -/
def nestedOptions : Options where
  cpuUsage := 100
  runTime := 1
  scheduler := 1
  tasksetFilename := some "tasksets/5t_l"
  workload := 0
  enableHua := false
  locking := NESTED_LOCKING
  csLength := 50
  batchMode := false
  endUsage := 0
  interval := 0

/-- A task of 1 ms every 5 ms with the given locks. -/
def sampleTask (locks : List Int) : Task where
  cpuMask := 1
  threadGroup := 0
  groupLeader := 0
  myLocks := locks
  period := 5000
  periodTs := ⟨0, 5000000⟩
  execTime := 1000
  utility := 1
  huaUtility := 0
  taskWss := 0
  groupWss := -1
  lockedUsage := 500
  unlockedUsage := 500
  maxReleases := 200
  extraRelease := false
  numReleases := 0
  numAborted := 0
  deadlinesMet := 0
  utilityAccrued := 0
  maxTardiness := 0

/-- The job releases a mutex it did not acquire. -/
theorem not_balanced_first_lock_fails :
    nestedOptions.Accepted ∧
      ¬(segment ⟨nestedOptions, 1, 0, ⟨0, 0⟩⟩
        ⟨0, fun _ => false, fun _ => false, false, 0, 0, 0, 0⟩ (sampleTask [0])).Balanced := by
  decide

end Chronos
