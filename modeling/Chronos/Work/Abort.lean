import Chronos.Work.Iterations

/-!
# A run that may be aborted

The flag is checked before each call of `do_work`, and once more for the value returned.
Once it is set it stays set.
-/

namespace Chronos.Work

/-- No call of `do_work` gets more than `chunk` iterations, all of them together no more
than `limit`, there is none after a check that has found the flag set, and what is
returned is what the last check has found. -/
structure Bounded (chunk limit : Nat) (o : Outcome) : Prop where
  chunk : ∀ n, .work n ∈ o.events → n ≤ chunk
  total : o.total ≤ limit
  stops : o.events.Pairwise fun e e' => e = .check true → ∀ n, e' ≠ .work n
  returns : ∀ r, o.returned = some r → o.events.getLast? = some (.check r)

section

variable {flag : Nat → Bool} {I C : Nat}

/-- The end of a run: what is left to do is no more than a chunk. -/
theorem bounded_exit (hflag : Monotone flag) {j i : Nat}
    (hi : flag j = false → i < I → I - i ≤ C) :
    Bounded C (I - i) ⟨.check (flag j) :: (remainder flag I (j + 1) i).events,
      (remainder flag I (j + 1) i).returned⟩ := by
  have hset : flag j = true → flag (j + 1) = true := fun h => by
    have := hflag (Nat.le_succ j)
    rw [h] at this
    exact top_le_iff.mp this
  cases hj : flag (j + 1) with
  | true =>
    refine ⟨?_, ?_, ?_, ?_⟩ <;> simp [remainder, hj]
  | false =>
    have hclear : flag j = false := by
      cases h : flag j with
      | true => rw [hset h] at hj; exact hj
      | false => rfl
    by_cases hlt : i < I
    · have hle := hi hclear hlt
      refine ⟨?_, ?_, ?_, ?_⟩ <;> simp [remainder, hj, hclear, hlt, hle]
    · refine ⟨?_, ?_, ?_, ?_⟩ <;> simp [remainder, hj, hclear, hlt]

/-- The counter of a loop that has room, or is aborted before it wraps around. -/
theorem counter_next (hC : C < 2 ^ 64) (hI : I < 2 ^ 64)
    (hroom : (I ⌈/⌉ C) * C < 2 ^ 64 ∨ flag (I ⌈/⌉ C - 1) = true) {j : Nat}
    (hj : j * C < I ∨ j * C = 0) (hflag : flag j = false) : j * C + C < 2 ^ 64 := by
  rcases Nat.eq_zero_or_pos C with rfl | hpos
  · omega
  rcases hj with hj | hj
  · by_contra hwrap
    have hlast : I ⌈/⌉ C = j + 1 := by
      refine le_antisymm ((ceilDiv_le_iff_le_mul hpos).mpr ?_) ((lt_ceilDiv_iff hpos).mpr hj)
      rw [Nat.mul_comm, Nat.succ_mul]
      omega
    rw [hlast, Nat.succ_mul] at hroom
    rcases hroom with hroom | hroom
    · omega
    · rw [Nat.add_sub_cancel, hflag] at hroom
      exact absurd hroom (by decide)
  · omega

/-- From any check of the loop on. -/
theorem workLoop_bounded (hC : C < 2 ^ 64) (hI : I < 2 ^ 64) (hflag : Monotone flag)
    (hroom : (I ⌈/⌉ C) * C < 2 ^ 64 ∨ flag (I ⌈/⌉ C - 1) = true) (rounds : Nat) {j : Nat}
    (hj : j * C < I ∨ j * C = 0) :
    Bounded C (I - j * C) (workLoop flag I C rounds j (j * C)) := by
  induction rounds generalizing j with
  | zero => exact ⟨by simp [workLoop], by simp [workLoop], by simp [workLoop], by simp [workLoop]⟩
  | succ rounds ih =>
    by_cases hgo : flag j = false ∧ (j * C + C) % 2 ^ 64 < I
    · obtain ⟨hclear, hlt⟩ := hgo
      have hnext := counter_next hC hI hroom hj hclear
      have hmod : (j * C + C) % 2 ^ 64 = (j + 1) * C := by
        rw [Nat.mod_eq_of_lt hnext, Nat.succ_mul]
      rw [workLoop_succ hclear hlt, hmod]
      rw [hmod] at hlt
      have hlater := ih (.inl hlt)
      have hsucc : (j + 1) * C = j * C + C := Nat.succ_mul j C
      refine ⟨?_, ?_, ?_, ?_⟩
      · intro n hn
        simp only [List.mem_cons, reduceCtorEq, Event.work.injEq, false_or] at hn
        rcases hn with rfl | hn
        · exact le_rfl
        · exact hlater.chunk n hn
      · have htotal := hlater.total
        simp only [Outcome.total_cons, Event.iterations_check, Event.iterations_work]
        have : C + (workLoop flag I C rounds (j + 1) ((j + 1) * C)).total ≤ I - j * C := by omega
        rwa [Nat.zero_add]
      · simpa using hlater.stops
      · intro r hr
        have hlast := hlater.returns r hr
        simp [List.getLast?_cons, hlast]
    · rw [workLoop, if_neg (by simpa using hgo)]
      refine bounded_exit hflag fun hclear hlt => ?_
      by_contra hmore
      exact hgo ⟨hclear, by rw [Nat.mod_eq_of_lt (by omega)]; omega⟩

/-- A run whose counter wraps around. -/
theorem workLoop_unbounded (hC : C < 2 ^ 64) (hI : I < 2 ^ 64) (hflag : Monotone flag)
    (hwrap : 2 ^ 64 ≤ (I ⌈/⌉ C) * C) (hclear : flag (I ⌈/⌉ C - 1) = false) :
    I < (workLoop flag I C (I ⌈/⌉ C) 0 0).total := by
  have hloop : ∀ m < I ⌈/⌉ C, flag m = false ∧ (m + 1) * C % 2 ^ 64 < I := by
    intro m hm
    have hle : flag m ≤ false := hclear ▸ hflag (by omega)
    exact ⟨le_bot_iff.mp hle, wrapped_lt hC hI hwrap hm⟩
  rw [(workLoop_looping hloop).1]
  omega

end

/-- The last check of the loop at which the counter is below the iterations asked for. -/
def lastChunk (usage : Nat) (slope : ℚ) : Nat :=
  ⌊usage * slope⌋₊ ⌈/⌉ ⌊slope * ABORT_CHECK_US⌋₊ - 1

/-- **The work is bounded, whenever the abort comes, exactly when** the conversions are
defined and the counter does not overflow before the flag is set. -/
theorem doWorkSlope_bounded_iff {flag : Nat → Bool} {usage : Nat} {slope : ℚ}
    (hslope : 0 < slope) (hflag : Monotone flag) :
    (∀ rounds, ∃ o, doWorkSlope flag usage slope rounds = some o ∧
      Bounded ⌊slope * ABORT_CHECK_US⌋₊ ⌊usage * slope⌋₊ o) ↔
      usage * slope < 2 ^ 64 ∧ slope * ABORT_CHECK_US < 2 ^ 64 ∧
        (roundedUp usage slope < 2 ^ 64 ∨ flag (lastChunk usage slope) = true) := by
  have hI : (0 : ℚ) ≤ usage * slope := by positivity
  have hC : (0 : ℚ) ≤ slope * ABORT_CHECK_US := by positivity
  constructor
  · intro h
    obtain ⟨o, hrun, -⟩ := h 0
    obtain ⟨hwork, hchunk⟩ := lt_of_doWorkSlope hslope hrun
    refine ⟨hwork, hchunk, ?_⟩
    by_contra hno
    simp only [not_or, not_lt, Bool.not_eq_true] at hno
    obtain ⟨o, hrun, hbounded⟩ := h (⌊usage * slope⌋₊ ⌈/⌉ ⌊slope * ABORT_CHECK_US⌋₊)
    rw [doWorkSlope_of_lt hslope hwork hchunk, Option.some.injEq] at hrun
    have hmore := workLoop_unbounded (floor_lt_of_lt hC hchunk) (floor_lt_of_lt hI hwork) hflag
      hno.1 hno.2
    rw [hrun] at hmore
    exact absurd hbounded.total (not_le.mpr hmore)
  · rintro ⟨hwork, hchunk, hroom⟩ rounds
    refine ⟨_, doWorkSlope_of_lt hslope hwork hchunk, ?_⟩
    have hbounded := workLoop_bounded (floor_lt_of_lt hC hchunk) (floor_lt_of_lt hI hwork)
      hflag hroom rounds (j := 0) (.inr (Nat.zero_mul _))
    rwa [Nat.zero_mul, Nat.sub_zero] at hbounded

/-- The flag is set after its third check. -/
theorem bounded_of_abort :
    (∀ rounds, ∃ o, doWorkSlope (fun j => decide (3 ≤ j)) 10 (5 / 2) rounds = some o ∧
      Bounded ⌊(5 / 2 : ℚ) * ABORT_CHECK_US⌋₊ ⌊((10 : Nat) : ℚ) * (5 / 2)⌋₊ o) ↔
    ((10 : Nat) : ℚ) * (5 / 2) < 2 ^ 64 ∧ (5 / 2 : ℚ) * ABORT_CHECK_US < 2 ^ 64 ∧
      (roundedUp 10 (5 / 2) < 2 ^ 64 ∨ decide (3 ≤ lastChunk 10 (5 / 2)) = true) :=
  doWorkSlope_bounded_iff (by norm_num) fun i j hij => by
    simp only [Bool.le_iff_imp, decide_eq_true_eq]
    omega

/-- With 8191 chunks of `2 ^ 51` iterations behind it, the counter comes back to zero. -/
theorem doWorkSlope_overrun : ¬ ∀ (flag : Nat → Bool) (usage : Nat) (slope : ℚ), 0 < slope →
    Monotone flag → ∀ rounds, ∃ o, doWorkSlope flag usage slope rounds = some o ∧
      Bounded ⌊slope * ABORT_CHECK_US⌋₊ ⌊usage * slope⌋₊ o := by
  intro h
  obtain ⟨o, hrun, hbounded⟩ := h (fun _ => false) 8191 (2 ^ 51 + 1 / 2) (by norm_num)
    monotone_const 8192
  rw [doWorkSlope_of_lt (by norm_num) (by norm_num) (by norm_num), Option.some.injEq] at hrun
  have hwork : ⌊((8191 : Nat) : ℚ) * (2 ^ 51 + 1 / 2)⌋₊ = 8191 * 2 ^ 51 + 4095 :=
    (Nat.floor_eq_iff (by norm_num)).mpr (by norm_num)
  have hchunk : ⌊(2 ^ 51 + 1 / 2 : ℚ) * ABORT_CHECK_US⌋₊ = 2 ^ 51 :=
    (Nat.floor_eq_iff (by norm_num)).mpr (by norm_num)
  have hcount : (8191 * 2 ^ 51 + 4095) ⌈/⌉ 2 ^ 51 = 8192 := rfl
  have hnever : Monotone fun _ : Nat => false := monotone_const
  have hmore := workLoop_unbounded (I := 8191 * 2 ^ 51 + 4095) (C := 2 ^ 51) (by norm_num)
    (by norm_num) hnever (by rw [hcount]; norm_num) rfl
  rw [hcount] at hmore
  rw [hwork, hchunk] at hrun hbounded
  rw [hrun] at hmore
  exact absurd hbounded.total (not_le.mpr hmore)

end Chronos.Work
