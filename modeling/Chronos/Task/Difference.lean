import Chronos.Task.Hyperperiod
import Chronos.Task.Release

/-!
# Differences of times

`utils.h` and `chronos_utils.c` each have functions that compare two times. The fields of a
`struct timespec` are `long`s, and a time may lie before the epoch; sums and products of
`long`s wrap.
-/

namespace Chronos

open Lib

/-- `struct timespec` with the signs of its fields. -/
structure SignedTimespec where
  sec : Int
  nsec : Int
  deriving DecidableEq, Repr

namespace SignedTimespec

def toNs (x : SignedTimespec) : Int := x.sec * BILLION + x.nsec

def Normalised (x : SignedTimespec) : Prop := 0 ≤ x.nsec ∧ x.nsec < BILLION

instance (x : SignedTimespec) : Decidable x.Normalised := inferInstanceAs (Decidable (_ ∧ _))

/-- `timespec_subtract_us` -/
def timespecSubtractUs (x y : SignedTimespec) : Int :=
  let sec := toLong (x.sec - y.sec)
  let nsec := toLong (x.nsec - y.nsec)
  if nsec < 0 then
    let nsec := toLong (nsec + BILLION)
    let sec := toLong (sec - 1)
    toLong (toLong (sec * MILLION) + nsec.tdiv THOUSAND)
  else toLong (toLong (sec * MILLION) + nsec.tdiv THOUSAND)

/-- The common body of the next two. The products are still `long`s, the sums that `time`
gets are not. -/
def subtractNs (billion : Int) (first last : SignedTimespec) : Nat :=
  let nsec := toLong (last.nsec - first.nsec)
  let sec := toLong (last.sec - first.sec)
  if nsec < 0 then
    let time := toULong (toLong (billion + nsec))
    toULong (time + toLong (toLong (sec - 1) * billion))
  else toULong (toLong (nsec + toLong (sec * billion)))

/-- `timespec_subtract_ns` -/
def timespecSubtractNs (first last : SignedTimespec) : Nat := subtractNs BILLION first last

/-- libchronos' `subtract_ts`, which has a `BILLION` of its own. -/
def subtractTs (first last : SignedTimespec) : Nat := subtractNs 1000000000 first last

/-- libchronos' `deadline_met` -/
def deadlineMet (endTime deadline : SignedTimespec) : Bool :=
  endTime.sec < deadline.sec ||
    (endTime.sec = deadline.sec && endTime.nsec ≤ deadline.nsec)

/-! ## Arithmetic that wraps -/

theorem toLong_add_toLong (x y : Int) : toLong (toLong x + y) = toLong (x + y) :=
  Int.bmod_add_bmod

theorem toULong_toLong (x : Int) : toULong (toLong x) = toULong x := by
  unfold toULong toLong
  congr 1
  exact Int.bmod_emod

theorem toULong_add_toLong (x y : Int) : toULong (x + toLong y) = toULong (x + y) := by
  rw [← toULong_toLong, Int.add_comm, toLong_add_toLong, toULong_toLong, Int.add_comm]

theorem natCast_toULong {x : Int} (h0 : 0 ≤ x) (h : x < 2 ^ 64) : (toULong x : Int) = x := by
  rw [toULong, Int.emod_eq_of_lt h0 h, Int.toNat_of_nonneg h0]

/-! ## Exactness -/

section

variable {x y : SignedTimespec}

/-- The borrow and the truncated division give the floor of the difference, also where only
the product of the seconds is out of range. -/
theorem timespecSubtractUs_eq (hx : x.Normalised) (hy : y.Normalised)
    (hlow : -2 ^ 63 ≤ (x.toNs - y.toNs) / THOUSAND)
    (hhigh : (x.toNs - y.toNs) / THOUSAND < 2 ^ 63) :
    x.timespecSubtractUs y = (x.toNs - y.toNs) / THOUSAND := by
  obtain ⟨hx0, hx⟩ := hx
  obtain ⟨hy0, hy⟩ := hy
  unfold toNs at hlow hhigh ⊢
  unfold timespecSubtractUs
  simp only [BILLION, MILLION, THOUSAND] at hx hy hlow hhigh ⊢
  rw [toLong_eq_self (x := x.sec - y.sec) (by omega) (by omega),
    toLong_eq_self (x := x.nsec - y.nsec) (by omega) (by omega)]
  split
  · next hborrow =>
    rw [toLong_eq_self (x := x.sec - y.sec - 1) (by omega) (by omega),
      toLong_eq_self (x := x.nsec - y.nsec + _) (by omega) (by omega), toLong_add_toLong,
      Int.tdiv_eq_ediv_of_nonneg (by omega), toLong_eq_self (by omega) (by omega)]
    omega
  · next hborrow =>
    rw [toLong_add_toLong, Int.tdiv_eq_ediv_of_nonneg (by omega),
      toLong_eq_self (by omega) (by omega)]
    omega

/-- The sums and products may wrap on the way, the result does not. -/
theorem subtractNs_eq (hx : x.Normalised) (hy : y.Normalised) (hle : x.toNs ≤ y.toNs)
    (hfit : y.toNs - x.toNs < 2 ^ 64) : (subtractNs BILLION x y : Int) = y.toNs - x.toNs := by
  obtain ⟨hx0, hx⟩ := hx
  obtain ⟨hy0, hy⟩ := hy
  unfold toNs at hle hfit ⊢
  unfold subtractNs
  simp only [BILLION] at hx hy hle hfit ⊢
  rw [toLong_eq_self (x := y.sec - x.sec) (by omega) (by omega),
    toLong_eq_self (x := y.nsec - x.nsec) (by omega) (by omega)]
  split
  · next hborrow =>
    have htime : (toULong (((1000000000 : Nat) : Int) + (y.nsec - x.nsec)) : Int) =
        1000000000 + (y.nsec - x.nsec) := natCast_toULong (by omega) (by omega)
    rw [toLong_eq_self (x := y.sec - x.sec - 1) (by omega) (by omega),
      toLong_eq_self (x := _ + (y.nsec - x.nsec)) (by omega) (by omega), toULong_add_toLong,
      htime, natCast_toULong (by omega) (by omega)]
    omega
  · next hborrow =>
    rw [toULong_toLong, toULong_add_toLong, natCast_toULong (by omega) (by omega)]
    omega

theorem deadlineMet_iff (hx : x.Normalised) (hy : y.Normalised) :
    deadlineMet y x = true ↔ y.toNs ≤ x.toNs := by
  obtain ⟨hx0, hx⟩ := hx
  obtain ⟨hy0, hy⟩ := hy
  unfold toNs deadlineMet
  simp only [BILLION, Bool.or_eq_true, Bool.and_eq_true, decide_eq_true_eq] at *
  omega

/-- **Differences are exact**, and a job is late for the tester exactly when it is late for
libchronos. -/
theorem differences_exact (hx : x.Normalised) (hy : y.Normalised) :
    (-2 ^ 63 ≤ (x.toNs - y.toNs) / THOUSAND → (x.toNs - y.toNs) / THOUSAND < 2 ^ 63 →
      x.timespecSubtractUs y = (x.toNs - y.toNs) / THOUSAND ∧
      (0 ≤ x.timespecSubtractUs y ↔ deadlineMet y x = true)) ∧
    (x.toNs ≤ y.toNs → y.toNs - x.toNs < 2 ^ 64 →
      (x.timespecSubtractNs y : Int) = y.toNs - x.toNs ∧
      (x.subtractTs y : Int) = y.toNs - x.toNs) := by
  constructor
  · intro hlow hhigh
    have hus := timespecSubtractUs_eq hx hy hlow hhigh
    refine ⟨hus, ?_⟩
    rw [hus, deadlineMet_iff hx hy, Int.ediv_nonneg_iff_of_pos (by norm_num), sub_nonneg]
  · intro hle hfit
    have hns := subtractNs_eq hx hy hle hfit
    exact ⟨hns, hns⟩

/-- Half a microsecond late, and half a microsecond early across the turn of a second. -/
theorem differences_exact_half :
    (timespecSubtractUs ⟨7, 0⟩ ⟨7, 500⟩ = -1 ∧ deadlineMet ⟨7, 500⟩ ⟨7, 0⟩ = false) ∧
    timespecSubtractNs ⟨-1, 999999500⟩ ⟨0, 0⟩ = 500 := by
  have hlate := (differences_exact (x := ⟨7, 0⟩) (y := ⟨7, 500⟩) (by decide) (by decide)).1
    (by decide) (by decide)
  have hearly := (differences_exact (x := ⟨-1, 999999500⟩) (y := ⟨0, 0⟩) (by decide)
    (by decide)).2 (by decide) (by decide)
  refine ⟨⟨hlate.1, ?_⟩, ?_⟩
  · exact Bool.eq_false_iff.mpr fun hmet => absurd (hlate.2.mpr hmet) (by rw [hlate.1]; decide)
  · exact Int.ofNat.inj (hearly.1.trans (by decide))

end

end SignedTimespec

/-! ## The times of a task -/

/-- A time after the epoch. -/
def Timespec.signed (x : Timespec) : SignedTimespec := ⟨x.sec, x.nsec⟩

/-- `task_instance` computes its tardiness with this function. -/
theorem timespecSubtractUs_signed {x y : Timespec} (hx : x.nsec < BILLION) (hy : y.nsec < BILLION)
    (hlow : -2 ^ 63 ≤ ((x.toNs : Int) - y.toNs) / THOUSAND)
    (hhigh : ((x.toNs : Int) - y.toNs) / THOUSAND < 2 ^ 63) :
    timespecSubtractUs x y = x.signed.timespecSubtractUs y.signed := by
  have hnormalised (z : Timespec) (hz : z.nsec < BILLION) : z.signed.Normalised :=
    ⟨Int.natCast_nonneg _, Int.ofNat_lt.mpr hz⟩
  have htoNs (z : Timespec) : z.signed.toNs = z.toNs := by
    simp [Timespec.signed, SignedTimespec.toNs, Timespec.toNs]
  rw [Chronos.timespecSubtractUs_eq hx hy, SignedTimespec.timespecSubtractUs_eq (hnormalised x hx)
    (hnormalised y hy), htoNs, htoNs]
  · rwa [htoNs, htoNs]
  · rwa [htoNs, htoNs]

end Chronos
