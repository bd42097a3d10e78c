import Mathlib.Algebra.Order.Floor.Div
import Mathlib.Algebra.Order.Floor.Semiring
import Mathlib.Tactic.Linarith
import Mathlib.Tactic.Ring
import Chronos.Work.Defs

/-!
# The iterations of a run without an abort

The loop advances by the whole part of the slope. It ends with the iterations asked for
unless this is zero while there is work to do, or the counter runs past `2 ^ 64` before
the rest is smaller than a chunk.
-/

namespace Chronos.Work

/-! ## The conversions -/

theorem toUnsignedLong_of_nonneg {x : ℚ} (hx : 0 ≤ x) :
    toUnsignedLong x = if x < 2 ^ 64 then some ⌊x⌋₊ else none := by
  simp only [toUnsignedLong, show -1 < x by linarith, true_and]
  rfl

theorem floor_lt_of_lt {x : ℚ} (hx : 0 ≤ x) (h : x < 2 ^ 64) : ⌊x⌋₊ < 2 ^ 64 := by
  rw [Nat.floor_lt hx]
  exact_mod_cast h

section

variable {flag : Nat → Bool} {usage rounds : Nat} {slope : ℚ}

theorem doWorkSlope_of_lt (hslope : 0 < slope) (hwork : usage * slope < 2 ^ 64)
    (hchunk : slope * ABORT_CHECK_US < 2 ^ 64) :
    doWorkSlope flag usage slope rounds =
      some (workLoop flag ⌊usage * slope⌋₊ ⌊slope * ABORT_CHECK_US⌋₊ rounds 0 0) := by
  rw [doWorkSlope, toUnsignedLong_of_nonneg (by positivity),
    toUnsignedLong_of_nonneg (by positivity), if_pos hwork, if_pos hchunk]
  rfl

theorem lt_of_doWorkSlope {o : Outcome} (hslope : 0 < slope)
    (h : doWorkSlope flag usage slope rounds = some o) :
    usage * slope < 2 ^ 64 ∧ slope * ABORT_CHECK_US < 2 ^ 64 := by
  simp only [doWorkSlope, Option.bind_eq_bind, Option.bind_eq_some_iff] at h
  obtain ⟨iterations, hwork, chunk, hchunk, -⟩ := h
  rw [toUnsignedLong_of_nonneg (by positivity), Option.ite_none_right_eq_some] at hwork hchunk
  exact ⟨hwork.1, hchunk.1⟩

end

/-! ## The loop -/

section

variable {flag : Nat → Bool} {I C : Nat}

theorem counter_succ (C j : Nat) : (j * C % 2 ^ 64 + C) % 2 ^ 64 = (j + 1) * C % 2 ^ 64 := by
  rw [Nat.mod_add_mod, Nat.add_mul, Nat.one_mul]

@[simp] theorem Outcome.total_nil (r : Option Bool) : (⟨[], r⟩ : Outcome).total = 0 := rfl

@[simp] theorem Outcome.total_cons (e : Event) (es : List Event) (r : Option Bool) :
    (⟨e :: es, r⟩ : Outcome).total = e.iterations + (⟨es, r⟩ : Outcome).total :=
  List.sum_cons

@[simp] theorem Event.iterations_check (b : Bool) : (check b).iterations = 0 := rfl

@[simp] theorem Event.iterations_work (n : Nat) : (work n).iterations = n := rfl

/-- An iteration of the loop. -/
theorem workLoop_succ {r j i : Nat} (hflag : flag j = false) (hlt : (i + C) % 2 ^ 64 < I) :
    workLoop flag I C (r + 1) j i =
      ⟨.check false :: .work C :: (workLoop flag I C r (j + 1) ((i + C) % 2 ^ 64)).events,
        (workLoop flag I C r (j + 1) ((i + C) % 2 ^ 64)).returned⟩ := by
  rw [workLoop, if_pos (by simpa [hflag] using hlt), hflag]

/-- Iterations of the loop that go on, and what is left after them. -/
theorem workLoop_add {r : Nat} (n j : Nat)
    (h : ∀ m, j ≤ m → m < j + n → flag m = false ∧ (m + 1) * C % 2 ^ 64 < I) :
    let whole := workLoop flag I C (n + r) j (j * C % 2 ^ 64)
    let later := workLoop flag I C r (j + n) ((j + n) * C % 2 ^ 64)
    whole.total = n * C + later.total ∧ whole.returned = later.returned := by
  induction n generalizing j with
  | zero => simp
  | succ n ih =>
    obtain ⟨hflag, hlt⟩ := h j le_rfl (by omega)
    obtain ⟨htotal, hret⟩ := ih (j + 1) fun m hm hm' => h m (by omega) (by omega)
    rw [show j + 1 + n = j + (n + 1) by omega] at htotal hret
    rw [← counter_succ] at hlt htotal hret
    rw [show n + 1 + r = n + r + 1 by omega, workLoop_succ hflag hlt]
    refine ⟨?_, hret⟩
    simp only [Outcome.total_cons, Event.iterations_check, Event.iterations_work, htotal]
    rw [Nat.succ_mul n C]
    omega

/-- A run that is still in the loop. -/
theorem workLoop_looping {n : Nat}
    (h : ∀ m < n, flag m = false ∧ (m + 1) * C % 2 ^ 64 < I) :
    (workLoop flag I C n 0 0).total = n * C ∧ (workLoop flag I C n 0 0).returned = none := by
  have := workLoop_add (r := 0) n 0 fun m _ hm => h m (by omega)
  simpa [workLoop] using this

/-- The end of the loop, when nothing aborts it. -/
theorem workLoop_exit {r j i : Nat} (h : ¬ (i + C) % 2 ^ 64 < I) :
    (workLoop (fun _ => false) I C (r + 1) j i).total = I - i ∧
      (workLoop (fun _ => false) I C (r + 1) j i).returned = some false := by
  rw [workLoop, if_neg (by simpa using h)]
  by_cases hi : i < I
  · simp [remainder, hi]
  · simp [remainder, hi]
    omega

/-! ## The number of chunks -/

theorem lt_ceilDiv_iff (hC : 0 < C) {m : Nat} : m < I ⌈/⌉ C ↔ m * C < I := by
  rw [← not_le, ceilDiv_le_iff_le_mul hC, not_le, Nat.mul_comm]

theorem ceilDiv_mul_lt (hC : 0 < C) : (I ⌈/⌉ C) * C < I + C := by
  rcases Nat.eq_zero_or_pos (I ⌈/⌉ C) with h | h
  · rw [h]
    omega
  · have hlast := (lt_ceilDiv_iff hC).mp (Nat.sub_lt h Nat.one_pos)
    rw [Nat.sub_mul] at hlast
    omega

theorem le_ceilDiv_mul (hC : 0 < C) : I ≤ (I ⌈/⌉ C) * C := by
  rw [Nat.mul_comm]
  exact (ceilDiv_le_iff_le_mul hC).mp le_rfl

/-- Before the last chunk the counter is below the iterations. -/
theorem counter_lt (hI : I < 2 ^ 64) {m : Nat} (hm : m + 1 < I ⌈/⌉ C) :
    (m + 1) * C % 2 ^ 64 < I := by
  rcases Nat.eq_zero_or_pos C with rfl | hC
  · simp at hm
  · have hlt := (lt_ceilDiv_iff hC).mp hm
    rwa [Nat.mod_eq_of_lt (hlt.trans hI)]

/-- Where the last chunk passes `2 ^ 64`, the counter comes out below the iterations, so
that the loop goes on after it. -/
theorem wrapped_lt (hC : C < 2 ^ 64) (hI : I < 2 ^ 64) (hwrap : 2 ^ 64 ≤ (I ⌈/⌉ C) * C) {m : Nat}
    (hm : m < I ⌈/⌉ C) : (m + 1) * C % 2 ^ 64 < I := by
  rcases Nat.lt_or_ge (m + 1) (I ⌈/⌉ C) with h | h
  · exact counter_lt hI h
  · have hpos : 0 < C := Nat.pos_of_ne_zero fun h => by simp [h] at hwrap
    have hlt := ceilDiv_mul_lt (I := I) hpos
    rw [show m + 1 = I ⌈/⌉ C by omega]
    omega

/-- The run that ends. -/
theorem workLoop_exact (hI : I < 2 ^ 64) (hchunk : I = 0 ∨ 0 < C)
    (hroom : (I ⌈/⌉ C) * C < 2 ^ 64) :
    ∃ rounds, (workLoop (fun _ => false) I C rounds 0 0).total = I ∧
      (workLoop (fun _ => false) I C rounds 0 0).returned = some false := by
  rcases hchunk with rfl | hpos
  · exact ⟨1, workLoop_exit (by omega)⟩
  rcases Nat.eq_zero_or_pos I with rfl | hIpos
  · exact ⟨1, workLoop_exit (by omega)⟩
  obtain ⟨k, hk⟩ : ∃ k, I ⌈/⌉ C = k + 1 := by
    have : 0 < I ⌈/⌉ C := (lt_ceilDiv_iff hpos).mpr (by omega)
    exact ⟨I ⌈/⌉ C - 1, by omega⟩
  have hlast : k * C < I := (lt_ceilDiv_iff hpos).mp (by omega)
  have hgoes : ∀ m, 0 ≤ m → m < 0 + k → (fun _ => false) m = false ∧
      (m + 1) * C % 2 ^ 64 < I := fun m _ hm => ⟨rfl, counter_lt hI (by omega)⟩
  have hrun := workLoop_add (r := 1) k 0 hgoes
  have hend : (k * C % 2 ^ 64 + C) % 2 ^ 64 = (I ⌈/⌉ C) * C := by
    rw [counter_succ, ← hk, Nat.mod_eq_of_lt hroom]
  have hexit := workLoop_exit (I := I) (C := C) (r := 0) (j := k) (i := k * C % 2 ^ 64)
    (by rw [hend]; exact not_lt.mpr (le_ceilDiv_mul hpos))
  rw [Nat.zero_add, Nat.zero_mul, Nat.zero_mod] at hrun
  refine ⟨k + 1, ?_, hrun.2.trans hexit.2⟩
  rw [hrun.1, hexit.1, Nat.mod_eq_of_lt (hlast.trans hI)]
  omega

/-- The runs that do too much or do not end. -/
theorem workLoop_wrong (hC : C < 2 ^ 64) (hI : I < 2 ^ 64)
    (hbad : (0 < I ∧ C = 0) ∨ 2 ^ 64 ≤ (I ⌈/⌉ C) * C) (rounds : Nat) :
    (workLoop (fun _ => false) I C rounds 0 0).returned = none ∨
      I < (workLoop (fun _ => false) I C rounds 0 0).total := by
  rcases hbad with ⟨hpos, rfl⟩ | hwrap
  · exact .inl (workLoop_looping fun m _ => ⟨rfl, by simpa using hpos⟩).2
  have hgoes : ∀ m < I ⌈/⌉ C, (m + 1) * C % 2 ^ 64 < I := fun m => wrapped_lt hC hI hwrap
  rcases Nat.le_total rounds (I ⌈/⌉ C) with hle | hle
  · exact .inl (workLoop_looping fun m hm => ⟨rfl, hgoes m (by omega)⟩).2
  · obtain ⟨r, rfl⟩ := Nat.exists_eq_add_of_le hle
    have hclear : ∀ m, 0 ≤ m → m < 0 + I ⌈/⌉ C → (fun _ => false) m = false ∧
        (m + 1) * C % 2 ^ 64 < I := fun m _ hm => ⟨rfl, hgoes m (by omega)⟩
    have hrun := workLoop_add (r := r) (I ⌈/⌉ C) 0 hclear
    rw [Nat.zero_mul, Nat.zero_mod] at hrun
    right
    rw [hrun.1]
    omega

end

/-! ## A run without an abort -/

/-- The iterations asked for, rounded up to whole chunks. -/
def roundedUp (usage : Nat) (slope : ℚ) : Nat :=
  (⌊usage * slope⌋₊ ⌈/⌉ ⌊slope * ABORT_CHECK_US⌋₊) * ⌊slope * ABORT_CHECK_US⌋₊

/-- **`do_work_slope` ends with the iterations asked for exactly when** there is no work
or the chunk is not empty, and neither the conversions nor the counter overflow. -/
theorem doWorkSlope_total_iff {usage : Nat} {slope : ℚ} (hslope : 0 < slope) :
    (∃ rounds o, doWorkSlope (fun _ => false) usage slope rounds = some o ∧
      o.returned.isSome ∧ o.total = ⌊usage * slope⌋₊) ↔
      usage * slope < 2 ^ 64 ∧ slope * ABORT_CHECK_US < 2 ^ 64 ∧
        (usage * slope < 1 ∨ 1 ≤ slope * ABORT_CHECK_US) ∧ roundedUp usage slope < 2 ^ 64 := by
  have hI : (0 : ℚ) ≤ usage * slope := by positivity
  have hC : (0 : ℚ) ≤ slope * ABORT_CHECK_US := by positivity
  have hzero : ⌊usage * slope⌋₊ = 0 ↔ usage * slope < 1 := Nat.floor_eq_zero
  have hpos : 0 < ⌊slope * ABORT_CHECK_US⌋₊ ↔ 1 ≤ slope * ABORT_CHECK_US := Nat.floor_pos
  constructor
  · rintro ⟨rounds, o, hrun, hret, htotal⟩
    obtain ⟨hwork, hchunk⟩ := lt_of_doWorkSlope hslope hrun
    rw [doWorkSlope_of_lt hslope hwork hchunk, Option.some.injEq] at hrun
    subst hrun
    have hwrong := workLoop_wrong (floor_lt_of_lt hC hchunk) (floor_lt_of_lt hI hwork)
    by_contra hcon
    have hbad : (0 < ⌊usage * slope⌋₊ ∧ ⌊slope * ABORT_CHECK_US⌋₊ = 0) ∨
        2 ^ 64 ≤ roundedUp usage slope := by
      rw [← hzero, ← hpos] at hcon
      by_contra hno
      push Not at hno
      exact hcon ⟨hwork, hchunk, by omega, hno.2⟩
    rcases hwrong hbad rounds with hnone | hmore
    · rw [hnone] at hret
      exact absurd hret (by decide)
    · omega
  · rintro ⟨hwork, hchunk, hsome, hroom⟩
    rw [← hzero, ← hpos] at hsome
    obtain ⟨rounds, htotal, hret⟩ := workLoop_exact (floor_lt_of_lt hI hwork)
      hsome hroom
    exact ⟨rounds, _, doWorkSlope_of_lt hslope hwork hchunk, by rw [hret]; rfl, htotal⟩

theorem total_of_ten : (∃ rounds o, doWorkSlope (fun _ => false) 10 (5 / 2) rounds = some o ∧
      o.returned.isSome ∧ o.total = ⌊((10 : Nat) : ℚ) * (5 / 2)⌋₊) ↔
    ((10 : Nat) : ℚ) * (5 / 2) < 2 ^ 64 ∧ (5 / 2 : ℚ) * ABORT_CHECK_US < 2 ^ 64 ∧
      (((10 : Nat) : ℚ) * (5 / 2) < 1 ∨ 1 ≤ (5 / 2 : ℚ) * ABORT_CHECK_US) ∧
        roundedUp 10 (5 / 2) < 2 ^ 64 :=
  doWorkSlope_total_iff (by norm_num)

/-- At half an iteration a microsecond the chunk is empty, and the loop does not end. -/
theorem doWorkSlope_endless : ¬ ∀ (usage : Nat) (slope : ℚ), 0 < slope →
    ∃ rounds o, doWorkSlope (fun _ => false) usage slope rounds = some o ∧
      o.returned.isSome ∧ o.total = ⌊usage * slope⌋₊ := by
  intro h
  obtain ⟨rounds, o, hrun, hret, -⟩ := h 2 (1 / 2) (by norm_num)
  rw [doWorkSlope_of_lt (by norm_num) (by norm_num) (by norm_num), Option.some.injEq] at hrun
  have hwork : ⌊((2 : Nat) : ℚ) * (1 / 2)⌋₊ = 1 := by norm_num
  have hchunk : ⌊(1 / 2 : ℚ) * ABORT_CHECK_US⌋₊ = 0 := by norm_num
  have hloop : ∀ m < rounds, (fun _ : Nat => false) m = false ∧ (m + 1) * 0 % 2 ^ 64 < 1 :=
    fun _ _ => ⟨rfl, by omega⟩
  rw [hwork, hchunk] at hrun
  rw [← hrun, (workLoop_looping hloop).2] at hret
  exact absurd hret (by decide)

end Chronos.Work
