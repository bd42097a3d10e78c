import Mathlib.Tactic.Linarith
import Chronos.Lib.Rounding
import Chronos.Task.Defs
import Chronos.Work.Iterations

/-!
# Working until a timer says so

`do_work_timer` of `workload.c`, in binary64 arithmetic. It executes a chunk, reads the CPU
clock of its thread, updates an estimate of the time that a chunk takes, and goes on while
another chunk fits before the end; the rest is executed by one last call. The clock and the
abort flag change at any time, so that each reading and each check has a value of its own.
-/

namespace Chronos.Work

open Lib

/-- The fraction of the time that is left out. -/
def UNDERESTIMATE_BY : ℚ := fl (5 / 10 ^ 6)

/-- `timespec_to_s` -/
def timespecToS (ts : Timespec) : ℚ := fl (fl ts.sec + fl (fl ts.nsec * fl (1 / 10 ^ 9)))

/-- A reading of the clock when the thread has run for so many nanoseconds. -/
def getThreadCputime (ns : Nat) : ℚ := timespecToS (clock ns)

/-- `end_time` -/
def timerEnd (now : ℚ) (usage : Nat) : ℚ :=
  fl (now + fl (fl (fl usage * fl (1 / 10 ^ 6)) * fl (1 - UNDERESTIMATE_BY)))

/-- `diff` after one more reading. -/
def timerDiff (diff last now : ℚ) : ℚ :=
  if last = 0 then fl (now - last) else fl (fl (diff + fl (2 * fl (now - last))) / 3)

/-- The conversion to `int`, which is undefined for a number that is out of range. -/
def truncInt (x : ℚ) : Option Int :=
  if -2 ^ 31 - 1 < x ∧ x < 2 ^ 31 then some (if 0 ≤ x then ⌊x⌋ else ⌈x⌉) else none

/-- `last_iters` -/
def lastIters (endTime now diff : ℚ) (itersPerAbortCheck : Nat) : Option Int :=
  truncInt (fl (fl (fl (fl (endTime - now) / diff) * fl itersPerAbortCheck) *
    fl (1 - UNDERESTIMATE_BY)))

section

variable (flag : Nat → Bool) (cputime : Nat → Nat) (res endTime : ℚ) (itersPerAbortCheck : Nat)

/-- From the end of the loop on. The flag is not checked before the last call. -/
def timerEnding (checks : Nat) (diff now : ℚ) : Option Outcome :=
  if diff = 0 then some ⟨[.check (flag checks)], some (flag checks)⟩
  else do
    let last ← lastIters endTime now diff itersPerAbortCheck
    let rest := if 0 < last then [Event.work last.toNat] else []
    return ⟨rest ++ [.check (flag checks)], some (flag checks)⟩

/-- The loop after `k` chunks, and what comes after it. It has not returned when `rounds`
iterations of the loop do not suffice. -/
def timerLoop : (rounds k : Nat) → (diff now : ℚ) → Option Outcome
  | 0, _, _, _ => some ⟨[], none⟩
  | rounds + 1, k, diff, now =>
    if !flag k && decide (fl (fl (now + diff) + res) < endTime) then do
      let now' := getThreadCputime (cputime (k + 1))
      let later ← timerLoop rounds (k + 1) (timerDiff diff now now') now'
      return ⟨.check (flag k) :: .work itersPerAbortCheck :: later.events, later.returned⟩
    else do
      let later ← timerEnding flag endTime itersPerAbortCheck (k + 1) diff now
      return ⟨.check (flag k) :: later.events, later.returned⟩

end

/-- `do_work_timer`, where `flag` is what the checks of the abort flag find, `cputime` the time
at each reading of the clock and `res` its resolution. There is no outcome where a conversion
is undefined. -/
def doWorkTimer (flag : Nat → Bool) (cputime : Nat → Nat) (res : Timespec) (usage : Nat)
    (execSlope : ℚ) (rounds : Nat) : Option Outcome := do
  let itersPerAbortCheck ← toUnsignedLong (execSlope * ABORT_CHECK_US)
  let now := getThreadCputime (cputime 0)
  timerLoop flag cputime (timespecToS res) (timerEnd now usage) itersPerAbortCheck rounds 0 0 now

/-! ## The run of the loop -/

/-- The estimate after `k` chunks, from the readings `now`. -/
def estimate (now : Nat → ℚ) : Nat → ℚ
  | 0 => 0
  | k + 1 => timerDiff (estimate now k) (now k) (now (k + 1))

/-- Another chunk seems to fit after `k` chunks. -/
def Fits (now : Nat → ℚ) (res endTime : ℚ) (k : Nat) : Prop :=
  fl (fl (now k + estimate now k) + res) < endTime

instance (now : Nat → ℚ) (res endTime : ℚ) (k : Nat) : Decidable (Fits now res endTime k) :=
  inferInstanceAs (Decidable (_ < _))

/-- The iterations of the last call, after `k` chunks. -/
def finalIters (now : Nat → ℚ) (endTime : ℚ) (itersPerAbortCheck k : Nat) : Option Nat :=
  if estimate now k = 0 then some 0
  else (lastIters endTime (now k) (estimate now k) itersPerAbortCheck).map Int.toNat

section

variable {flag : Nat → Bool} {cputime : Nat → Nat} {res : ℚ} {endTime : ℚ} {C k rounds j : Nat}
  {o : Outcome}

theorem timerEnding_spec {checks : Nat}
    (h : timerEnding flag endTime C checks (estimate (getThreadCputime ∘ cputime) k)
      (getThreadCputime (cputime k)) = some o) :
    o.returned = some (flag checks) ∧
      finalIters (getThreadCputime ∘ cputime) endTime C k = some o.total := by
  unfold timerEnding at h
  unfold finalIters
  split at h
  · next hzero =>
    cases h
    rw [if_pos hzero]
    simp
  · next hne =>
    simp only [Option.bind_eq_bind, Option.bind_eq_some_iff] at h
    obtain ⟨last, hlast, ho⟩ := h
    cases ho
    rw [if_neg hne]
    refine ⟨rfl, ?_⟩
    rw [Function.comp_apply, hlast, Option.map_some]
    by_cases hpos : 0 < last
    · simp [hpos]
    · simp [hpos]
      omega

/-- **The loop is left after some number of chunks**, which the timer and the flag decide. -/
theorem timerLoop_spec
    (h : timerLoop flag cputime res endTime C rounds k (estimate (getThreadCputime ∘ cputime) k)
      (getThreadCputime (cputime k)) = some o) :
    ∃ n, (∀ i < n, flag (k + i) = false ∧
        Fits (getThreadCputime ∘ cputime) res endTime (k + i)) ∧
      ((n = rounds ∧ o.returned = none ∧ o.total = n * C) ∨
        n < rounds ∧ ¬(flag (k + n) = false ∧
            Fits (getThreadCputime ∘ cputime) res endTime (k + n)) ∧
          o.returned = some (flag (k + n + 1)) ∧
          ∃ last, finalIters (getThreadCputime ∘ cputime) endTime C (k + n) = some last ∧
            o.total = n * C + last) := by
  induction rounds generalizing k o with
  | zero =>
    cases h
    exact ⟨0, by simp, .inl ⟨rfl, rfl, by simp⟩⟩
  | succ rounds ih =>
    rw [timerLoop] at h
    split at h
    · next hgo =>
      simp only [Option.bind_eq_bind, Option.bind_eq_some_iff] at h
      obtain ⟨later, hlater, ho⟩ := h
      cases ho
      obtain ⟨n, hall, hend⟩ := ih (k := k + 1) hlater
      refine ⟨n + 1, fun i hi => ?_, ?_⟩
      · rcases i with _ | i
        · simpa [Fits] using hgo
        · have := hall i (by omega)
          rwa [show k + (i + 1) = k + 1 + i by omega]
      · rw [show k + (n + 1) = k + 1 + n by omega]
        have hone : (⟨.check (flag k) :: .work C :: later.events, later.returned⟩ : Outcome).total =
            C + later.total := by
          simp
        rw [hone, Nat.succ_mul n C]
        rcases hend with ⟨rfl, hret, htotal⟩ | ⟨hn, hno, hret, last, hlast, htotal⟩
        · exact .inl ⟨rfl, hret, by rw [htotal, Nat.add_comm]⟩
        · exact .inr ⟨by omega, hno, hret, last, hlast, by omega⟩
    · next hstop =>
      simp only [Option.bind_eq_bind, Option.bind_eq_some_iff] at h
      obtain ⟨later, hlater, ho⟩ := h
      cases ho
      obtain ⟨hret, hfinal⟩ := timerEnding_spec hlater
      refine ⟨0, by simp, .inr ⟨Nat.succ_pos _, ?_, hret, _, hfinal, ?_⟩⟩
      · simpa [Fits] using hstop
      · simp

/-- The same from the start. -/
theorem doWorkTimer_spec {ts : Timespec} {usage : Nat} {slope : ℚ}
    (h : doWorkTimer flag cputime ts usage slope rounds = some o) :
    ∃ C, toUnsignedLong (slope * ABORT_CHECK_US) = some C ∧
      ∃ n, (∀ i < n, flag i = false ∧ Fits (getThreadCputime ∘ cputime) (timespecToS ts)
        (timerEnd (getThreadCputime (cputime 0)) usage) i) ∧
      ((n = rounds ∧ o.returned = none ∧ o.total = n * C) ∨
        n < rounds ∧ ¬(flag n = false ∧ Fits (getThreadCputime ∘ cputime) (timespecToS ts)
            (timerEnd (getThreadCputime (cputime 0)) usage) n) ∧
          o.returned = some (flag (n + 1)) ∧
          ∃ last, finalIters (getThreadCputime ∘ cputime)
            (timerEnd (getThreadCputime (cputime 0)) usage) C n = some last ∧
            o.total = n * C + last) := by
  simp only [doWorkTimer, Option.bind_eq_bind, Option.bind_eq_some_iff] at h
  obtain ⟨C, hC, hloop⟩ := h
  refine ⟨C, hC, ?_⟩
  have hspec := timerLoop_spec (k := 0) hloop
  simpa only [Nat.zero_add] using hspec

end

/-! ## The end of the loop -/

theorem timespecToS_nonneg (ts : Timespec) : 0 ≤ timespecToS ts :=
  fl_nonneg (add_nonneg (fl_nonneg (Nat.cast_nonneg _))
    (fl_nonneg (mul_nonneg (fl_nonneg (Nat.cast_nonneg _)) (fl_nonneg (by norm_num)))))

/-- The part of a reading that is less than a second. -/
theorem fl_nsec_le {nsec : Nat} (h : nsec < BILLION) :
    fl (fl nsec * fl (1 / 10 ^ 9)) ≤ 1 := by
  have hone : fl 1 = 1 := fl_two_zpow (e := 0) (by norm_num)
  refine fl_le_of_le hone ?_
  have hle : (nsec : ℚ) ≤ 999999999 := by
    have : nsec ≤ 999999999 := Nat.lt_succ_iff.mp h
    exact_mod_cast this
  have hself : fl 999999999 = 999999999 := by
    have := fl_eq_self (m := 999999999) (e := 0) (by norm_num) (by norm_num)
    simpa using this
  have hnsec : fl nsec ≤ 999999999 := fl_le_of_le hself hle
  have hunit : fl (1 / 10 ^ 9) ≤ 1 / 10 ^ 9 * (1 + 2 ^ (-53 : ℤ)) := by
    have hnormal : (2 : ℚ) ^ (-1022 : ℤ) ≤ |1 / 10 ^ 9| := by
      rw [abs_of_pos (by norm_num)]
      exact (zpow_le_zpow_right₀ (by norm_num) (by norm_num : (-1022 : ℤ) ≤ -30)).trans
        (by norm_num)
    have herr := abs_fl_sub_le_mul hnormal
    rw [abs_of_pos (by norm_num : (0 : ℚ) < 1 / 10 ^ 9)] at herr
    linarith [(abs_le.mp herr).2]
  calc fl nsec * fl (1 / 10 ^ 9)
      ≤ 999999999 * (1 / 10 ^ 9 * (1 + 2 ^ (-53 : ℤ))) :=
        mul_le_mul hnsec hunit (fl_nonneg (by norm_num)) (by norm_num)
    _ ≤ 1 := by norm_num

theorem fl_getThreadCputime (ns : Nat) : fl (getThreadCputime ns) = getThreadCputime ns := by
  unfold getThreadCputime timespecToS
  exact fl_fl _

/-- Integers of at most 53 bits are kept. -/
theorem fl_natCast {n : Nat} (h : n ≤ 2 ^ 53) : fl n = n := by
  have hself := fl_eq_self (m := n) (e := 0) (by norm_num)
    (by rw [abs_of_nonneg (Int.natCast_nonneg n)]; exact_mod_cast h)
  simpa using hself

/-- Later readings are not smaller, for times that fit in 64 bits. -/
theorem getThreadCputime_mono {a b : Nat} (hab : a ≤ b) (hb : b < 2 ^ 63) :
    getThreadCputime a ≤ getThreadCputime b := by
  have hsec : a / BILLION ≤ b / BILLION := Nat.div_le_div_right hab
  have hsmall : b / BILLION ≤ 2 ^ 53 :=
    (Nat.div_le_div_right hb.le).trans (by norm_num)
  unfold getThreadCputime timespecToS clock
  dsimp only
  refine fl_mono ?_
  rw [fl_natCast (hsec.trans hsmall), fl_natCast hsmall]
  rcases lt_or_eq_of_le hsec with hlt | heq
  · have hnext : ((a / BILLION : Nat) : ℚ) + 1 ≤ ((b / BILLION : Nat) : ℚ) := by
      exact_mod_cast hlt
    have hrest : fl (fl ((a % BILLION : Nat) : ℚ) * fl (1 / 10 ^ 9)) ≤ 1 :=
      fl_nsec_le (Nat.mod_lt _ (by norm_num))
    have hnn : 0 ≤ fl (fl ((b % BILLION : Nat) : ℚ) * fl (1 / 10 ^ 9)) :=
      fl_nonneg (mul_nonneg (fl_nonneg (Nat.cast_nonneg _)) (fl_nonneg (by norm_num)))
    linarith
  · have hnsec : a % BILLION ≤ b % BILLION := by
      have ha := Nat.div_add_mod a BILLION
      have hb := Nat.div_add_mod b BILLION
      rw [heq] at ha
      omega
    rw [heq]
    have hcast : fl ((a % BILLION : Nat) : ℚ) ≤ fl ((b % BILLION : Nat) : ℚ) :=
      fl_mono (by exact_mod_cast hnsec)
    have hmul := fl_mono (mul_le_mul_of_nonneg_right hcast
      (fl_nonneg (by norm_num : (0 : ℚ) ≤ 1 / 10 ^ 9)))
    linarith

section

variable {now : Nat → ℚ} {res endTime : ℚ} {k n : Nat}

theorem truncInt_lt {x : ℚ} {m : Int} (h : truncInt x = some m) : m < 2 ^ 31 := by
  unfold truncInt at h
  split at h
  · next hrange =>
    have hlt : ⌊x⌋ < 2 ^ 31 := Int.floor_lt.mpr (by exact_mod_cast hrange.2)
    cases h
    split
    · exact hlt
    · next hneg =>
      have : ⌈x⌉ ≤ 0 := Int.ceil_le.mpr (by exact_mod_cast (not_le.mp hneg).le)
      omega
  · cases h

theorem finalIters_lt {C last : Nat} (h : finalIters now endTime C k = some last) :
    last < 2 ^ 31 := by
  unfold finalIters at h
  split at h
  · cases h
    norm_num
  · rw [Option.map_eq_some_iff] at h
    obtain ⟨m, hm, rfl⟩ := h
    have := truncInt_lt hm
    omega

theorem estimate_nonneg (hmono : ∀ i < k, now i ≤ now (i + 1)) : 0 ≤ estimate now k := by
  induction k with
  | zero => exact le_rfl
  | succ k ih =>
    have hstep : 0 ≤ fl (now (k + 1) - now k) :=
      fl_nonneg (sub_nonneg.mpr (hmono k (Nat.lt_succ_self k)))
    have hprev := ih fun i hi => hmono i (Nat.lt_succ_of_lt hi)
    unfold estimate timerDiff
    split
    · exact hstep
    · exact fl_nonneg (div_nonneg
        (fl_nonneg (add_nonneg hprev (fl_nonneg (mul_nonneg (by norm_num) hstep)))) (by norm_num))

/-- When the end has come nothing fits. -/
theorem not_fits (hdouble : fl (now n) = now n) (hmono : ∀ i < n, now i ≤ now (i + 1))
    (hres : 0 ≤ res) (hend : endTime ≤ now n) : ¬Fits now res endTime n := by
  have hsum : now n ≤ fl (now n + estimate now n) :=
    le_fl_of_le hdouble (by linarith [estimate_nonneg hmono])
  have hall : now n ≤ fl (fl (now n + estimate now n) + res) :=
    le_fl_of_le hdouble (by linarith)
  exact not_lt.mpr (hend.trans hall)

end

section

variable {flag : Nat → Bool} {cputime : Nat → Nat} {res : Timespec} {usage rounds n : Nat}
  {slope : ℚ} {o : Outcome}

/-- **The loop ends with the time.** When the CPU clock reaches the end at its `n`th reading
after the first, at most `n` chunks are executed and the function returns, whatever the abort
flag does, with what the last check of the flag has found. -/
theorem doWorkTimer_returns (hmono : Monotone cputime) (hclock : ∀ k, cputime k < 2 ^ 63)
    (hend : timerEnd (getThreadCputime (cputime 0)) usage ≤ getThreadCputime (cputime n))
    (hrounds : n < rounds) (h : doWorkTimer flag cputime res usage slope rounds = some o) :
    ∃ C, toUnsignedLong (slope * ABORT_CHECK_US) = some C ∧
      ∃ j ≤ n, (∀ i < j, flag i = false) ∧ o.returned = some (flag (j + 1)) ∧
        ∃ last < 2 ^ 31, o.total = j * C + last := by
  obtain ⟨C, hC, j, hall, hcases⟩ := doWorkTimer_spec h
  have hj : j ≤ n := by
    by_contra hlt
    have hno : ¬Fits (getThreadCputime ∘ cputime) _ _ n := not_fits
      (fl_getThreadCputime (cputime n))
      (fun i _ => getThreadCputime_mono (hmono (Nat.le_succ i)) (hclock (i + 1)))
      (timespecToS_nonneg res) hend
    exact hno (hall n (Nat.lt_of_not_le hlt)).2
  refine ⟨C, hC, j, hj, fun i hi => (hall i hi).1, ?_⟩
  rcases hcases with ⟨rfl, -⟩ | ⟨-, -, hret, last, hlast, htotal⟩
  · omega
  · exact ⟨hret, last, finalIters_lt hlast, htotal⟩

/-- The clock of a thread that has run for a millisecond and needs a microsecond for each of ten
chunks. -/
def sampleClock (k : Nat) : Nat := 1000000 + 1000 * min k 10

theorem sampleClock_mono : Monotone sampleClock :=
  fun _ _ h => Nat.add_le_add_left (Nat.mul_le_mul_left _ (min_le_min_right _ h)) _

theorem sampleClock_lt (k : Nat) : sampleClock k < 2 ^ 63 := by
  have := Nat.min_le_right k 10
  unfold sampleClock
  omega

/-- Three microseconds of work, to the end and aborted after two of them. -/
theorem doWorkTimer_returns_three :
    (∃ o, doWorkTimer (fun _ => false) sampleClock ⟨0, 1⟩ 3 100 10 = some o ∧
      ∃ C, toUnsignedLong (100 * ABORT_CHECK_US) = some C ∧
        ∃ j ≤ 3, (∀ i < j, (fun _ => false : Nat → Bool) i = false) ∧ o.returned = some false ∧
          ∃ last < 2 ^ 31, o.total = j * C + last) ∧
    ∃ o, doWorkTimer (fun k => decide (2 ≤ k)) sampleClock ⟨0, 1⟩ 3 100 10 = some o ∧
      ∃ C, toUnsignedLong (100 * ABORT_CHECK_US) = some C ∧
        ∃ j ≤ 3, (∀ i < j, decide (2 ≤ i) = false) ∧ o.returned = some (decide (2 ≤ j + 1)) ∧
          ∃ last < 2 ^ 31, o.total = j * C + last := by
  have hrun : (doWorkTimer (fun _ => false) sampleClock ⟨0, 1⟩ 3 100 10).isSome = true := by
    decide +kernel
  have haborted : (doWorkTimer (fun k => decide (2 ≤ k)) sampleClock ⟨0, 1⟩ 3
      100 10).isSome = true := by decide +kernel
  have hend : timerEnd (getThreadCputime (sampleClock 0)) 3 ≤ getThreadCputime (sampleClock 3) := by
    decide +kernel
  obtain ⟨o, ho⟩ := Option.isSome_iff_exists.mp hrun
  obtain ⟨o', ho'⟩ := Option.isSome_iff_exists.mp haborted
  exact ⟨⟨o, ho, doWorkTimer_returns sampleClock_mono sampleClock_lt hend (by decide) ho⟩,
    o', ho', doWorkTimer_returns sampleClock_mono sampleClock_lt hend (by decide) ho'⟩

/-- **A slope below one executes nothing.** A chunk then has no iterations, and neither has the
last call: whatever the clock and the flag do, the function only reads the clock. -/
theorem doWorkTimer_idle (hpos : 0 ≤ slope) (hslope : slope < 1)
    (h : doWorkTimer flag cputime res usage slope rounds = some o) : o.total = 0 := by
  obtain ⟨C, hC, j, -, hcases⟩ := doWorkTimer_spec h
  have hzero : C = 0 := by
    have hfloor : ⌊slope * ABORT_CHECK_US⌋₊ = 0 := by
      rw [ABORT_CHECK_US, Nat.cast_one, mul_one]
      exact Nat.floor_eq_zero.mpr hslope
    rw [toUnsignedLong_of_nonneg (by simpa using hpos), Option.ite_none_right_eq_some, hfloor,
      Option.some_inj] at hC
    exact hC.2.symm
  subst hzero
  have hlast : ∀ last, finalIters (getThreadCputime ∘ cputime)
      (timerEnd (getThreadCputime (cputime 0)) usage) 0 j = some last → last = 0 := by
    intro last hlast
    unfold finalIters lastIters truncInt at hlast
    split at hlast
    · cases hlast
      rfl
    · obtain ⟨-, hzero⟩ : (-2 ^ 31 : ℚ) < 1 ∧ 0 = last := by simpa using hlast
      exact hzero.symm
  rcases hcases with ⟨-, -, htotal⟩ | ⟨-, -, -, last, hfinal, htotal⟩
  · rw [htotal, Nat.mul_zero]
  · rw [htotal, hlast last hfinal, Nat.mul_zero]

/-- Three microseconds at one iteration in two. -/
theorem doWorkTimer_idle_half :
    ∃ o, doWorkTimer (fun _ => false) sampleClock ⟨0, 1⟩ 3 (1 / 2) 10 = some o ∧
      o.events.length = 8 ∧ o.total = 0 := by
  have hrun : ((doWorkTimer (fun _ => false) sampleClock ⟨0, 1⟩ 3 (1 / 2) 10).map
      fun o => o.events.length) = some 8 := by decide +kernel
  obtain ⟨o, ho, hlength⟩ := Option.map_eq_some_iff.mp hrun
  exact ⟨o, ho, hlength, doWorkTimer_idle (by decide +kernel) (by decide +kernel) ho⟩

end

end Chronos.Work
