import Mathlib.Data.BitVec
import Mathlib.Data.List.Prime
import Mathlib.Data.Nat.Prime.Basic
import Mathlib.Dynamics.PeriodicPts.Defs
import Mathlib.Order.Interval.Finset.Nat

/-!
# Periods of linear maps on bit vectors

A linear map of `BitVec w` that moves the one bit of `2 ^ (j + 1)` to `2 ^ j` makes every
bit vector out of its powers at the highest bit. An iterate at that bit, written in these
powers, can then be squared, so that a far iterate takes a few steps for each bit of its
number. If the period of the highest bit is `2 ^ w - 1`, its orbit leaves out no bit vector
but zero.
-/

namespace Chronos.Lib

open Function

/-! ## Periods -/

section Periods

variable {α : Type*} {f : α → α} {x : α} {n : Nat}

/-- A period is the least one if no quotient of it by a prime is a period. -/
theorem minimalPeriod_eq_of_prime (hx : f^[n] x = x)
    (h : ∀ p, p.Prime → p ∣ n → f^[n / p] x ≠ x) : minimalPeriod f x = n := by
  have hdvd : minimalPeriod f x ∣ n := IsPeriodicPt.minimalPeriod_dvd hx
  obtain ⟨a, ha⟩ := hdvd
  rcases eq_or_ne a 1 with rfl | hne
  · rw [ha, mul_one]
  · -- a prime that divides the factor leaves a smaller period
    obtain ⟨p, hp, b, rfl⟩ := Nat.exists_prime_and_dvd hne
    rw [Nat.mul_left_comm] at ha
    have hquot : n / p = minimalPeriod f x * b := by rw [ha, Nat.mul_div_cancel_left _ hp.pos]
    refine absurd ?_ (h p hp ⟨_, ha⟩)
    rw [hquot]
    exact (isPeriodicPt_minimalPeriod f x).mul_const b

/-- The points of an orbit have one period. -/
theorem minimalPeriod_iterate (hn : 0 < minimalPeriod f x) (k : Nat) :
    minimalPeriod f (f^[k] x) = minimalPeriod f x :=
  minimalPeriod_apply_iterate (minimalPeriod_pos_iff_mem_periodicPts.mp hn) k

/-- Each point of an orbit is reached from each other one within a period. -/
theorem exists_iterate_iterate (hn : 0 < minimalPeriod f x) (i j : Nat) :
    ∃ k < minimalPeriod f x, f^[k] (f^[i] x) = f^[j] x := by
  have hi := Nat.mod_lt i hn
  refine ⟨(j + (minimalPeriod f x - i % minimalPeriod f x)) % minimalPeriod f x,
    Nat.mod_lt _ hn, ?_⟩
  rw [← iterate_mod_minimalPeriod_eq (n := i), ← iterate_add_apply,
    ← iterate_mod_minimalPeriod_eq (n := _ + _), Nat.mod_add_mod,
    show j + (minimalPeriod f x - i % minimalPeriod f x) + i % minimalPeriod f x =
      j + minimalPeriod f x by omega,
    Nat.add_mod_right, iterate_mod_minimalPeriod_eq]

end Periods

variable {w : Nat}

/-- The map keeps sums of bit vectors. -/
def IsLinear (f : BitVec w → BitVec w) : Prop := ∀ a b, f (a ^^^ b) = f a ^^^ f b

section Linear

variable {f : BitVec w → BitVec w}

theorem IsLinear.map_zero (h : IsLinear f) : f 0#w = 0#w := by
  have hself := h 0#w 0#w
  rwa [BitVec.xor_self, BitVec.xor_self] at hself

theorem IsLinear.iterate (h : IsLinear f) (k : Nat) : IsLinear f^[k] := by
  induction k with
  | zero => exact fun _ _ => rfl
  | succ k ih =>
    intro a b
    rw [iterate_succ_apply', iterate_succ_apply', iterate_succ_apply', ih, h]

/-! ## Sums of powers of a map -/

/-- The sum of the powers of the map that the list selects, at `b`. -/
def combine (f : BitVec w → BitVec w) : List Bool → BitVec w → BitVec w
  | [], _ => 0#w
  | c :: cs, b => (bif c then b else 0#w) ^^^ combine f cs (f b)

theorem combine_map {g : BitVec w → BitVec w} (hg : IsLinear g) (hcomm : ∀ b, g (f b) = f (g b))
    (cs : List Bool) (b : BitVec w) : combine f cs (g b) = g (combine f cs b) := by
  induction cs generalizing b with
  | nil => exact hg.map_zero.symm
  | cons c cs ih =>
    have hcoeff : (bif c then g b else 0#w) = g (bif c then b else 0#w) := by
      cases c
      · exact hg.map_zero.symm
      · rfl
    rw [combine, combine, hg, ← hcoeff, ← hcomm, ih]

/-- The lowest `j` bits, the highest of them first. -/
def coeffs (a : BitVec w) : Nat → List Bool
  | 0 => []
  | j + 1 => a.getLsbD j :: coeffs a j

/-- The map moves a bit down that is not the lowest. -/
def MovesDown (f : BitVec w → BitVec w) : Prop :=
  ∀ j, j + 1 < w → f (BitVec.twoPow w (j + 1)) = BitVec.twoPow w j

theorem getLsbD_combine_coeffs (h : MovesDown f) (a : BitVec w) {j : Nat} (hj : j < w) (i : Nat) :
    (combine f (coeffs a (j + 1)) (BitVec.twoPow w j)).getLsbD i =
      (decide (i ≤ j) && a.getLsbD i) := by
  induction j with
  | zero =>
    simp only [coeffs, combine, BitVec.xor_zero]
    cases ha : a.getLsbD 0 <;> rcases i with - | i <;> simp_all [BitVec.getLsbD_twoPow]
  | succ j ih =>
    rw [coeffs, combine, h j hj, BitVec.getLsbD_xor, ih (by omega)]
    rcases Nat.lt_trichotomy i (j + 1) with hlt | rfl | hgt
    · cases a.getLsbD (j + 1) <;>
        simp [BitVec.getLsbD_twoPow, hlt.ne', hlt.le, Nat.lt_succ_iff.mp hlt]
    · cases a.getLsbD (j + 1) <;> simp [hj]
    · cases a.getLsbD (j + 1) <;>
        simp [BitVec.getLsbD_twoPow, hgt.ne, Nat.not_le.mpr hgt, Nat.not_le.mpr (by omega : j < i)]

/-- **Every bit vector** is a sum of powers at the highest bit. -/
theorem combine_coeffs (h : MovesDown f) (a : BitVec w) :
    combine f (coeffs a w) (BitVec.twoPow w (w - 1)) = a := by
  rcases w with - | w
  · exact BitVec.eq_of_zero_length rfl
  · apply BitVec.eq_of_getLsbD_eq
    intro i hi
    have hbit := getLsbD_combine_coeffs h a (Nat.lt_succ_self w) i
    rwa [decide_eq_true (Nat.lt_succ_iff.mp hi), Bool.true_and] at hbit

/-! ## Iterates by squaring -/

/-- Twice as many steps from the highest bit as there are to `a`. -/
def square (f : BitVec w → BitVec w) (a : BitVec w) : BitVec w := combine f (coeffs a w) a

/-- The `n`-th iterate at the highest bit, for a number of `k` bits. -/
def power (f : BitVec w → BitVec w) : Nat → Nat → BitVec w
  | 0, _ => BitVec.twoPow w (w - 1)
  | k + 1, n =>
    bif n % 2 == 1 then f (square f (power f k (n / 2))) else square f (power f k (n / 2))

theorem square_iterate (hlin : IsLinear f) (h : MovesDown f) (k : Nat) :
    square f (f^[k] (BitVec.twoPow w (w - 1))) = f^[2 * k] (BitVec.twoPow w (w - 1)) := by
  have hcomm (b : BitVec w) : f^[k] (f b) = f (f^[k] b) := by
    rw [← iterate_succ_apply, iterate_succ_apply']
  rw [square, combine_map (hlin.iterate k) hcomm, combine_coeffs h, ← iterate_add_apply, two_mul]

theorem power_eq_iterate (hlin : IsLinear f) (h : MovesDown f) {k n : Nat} (hn : n < 2 ^ k) :
    power f k n = f^[n] (BitVec.twoPow w (w - 1)) := by
  induction k generalizing n with
  | zero =>
    have hn0 : n = 0 := by omega
    subst hn0
    rfl
  | succ k ih =>
    rw [power, ih (by omega), square_iterate hlin h]
    rcases Nat.mod_two_eq_zero_or_one n with hmod | hmod
    · have hdiv : 2 * (n / 2) = n := by omega
      simp [hmod, hdiv]
    · have hdiv : 2 * (n / 2) + 1 = n := by omega
      simp only [hmod, beq_self_eq_true, cond_true]
      rw [← iterate_succ_apply' f, Nat.succ_eq_add_one, hdiv]

/-! ## Maximal periods -/

/-- The highest bit returns to itself after `2 ^ w - 1` steps, and after no quotient of
that number by a prime. -/
structure Primitive (f : BitVec w → BitVec w) : Prop where
  linear : IsLinear f
  movesDown : MovesDown f
  returns : power f w (2 ^ w - 1) = BitVec.twoPow w (w - 1)
  prime : ∀ p, p.Prime → p ∣ 2 ^ w - 1 →
    power f w ((2 ^ w - 1) / p) ≠ BitVec.twoPow w (w - 1)

namespace Primitive

/-- It is enough to try the prime factors of `2 ^ w - 1`. -/
theorem of_primes (hlin : IsLinear f) (h : MovesDown f)
    (hreturns : power f w (2 ^ w - 1) = BitVec.twoPow w (w - 1)) (ps : List Nat)
    (hps : ∀ p ∈ ps, p.Prime) (hprod : ps.prod = 2 ^ w - 1)
    (hprime : ∀ p ∈ ps, power f w ((2 ^ w - 1) / p) ≠ BitVec.twoPow w (w - 1)) :
    Primitive f where
  linear := hlin
  movesDown := h
  returns := hreturns
  prime p hp hdvd := hprime p
    (mem_list_primes_of_dvd_prod hp.prime (fun q hq => (hps q hq).prime) (hprod ▸ hdvd))

variable (h : Primitive f) (hw : 0 < w)

include hw in
theorem two_pow_sub_one_pos : 0 < 2 ^ w - 1 := by
  have := Nat.one_lt_two_pow (n := w) (by omega)
  omega

include h hw in
theorem minimalPeriod_twoPow :
    minimalPeriod f (BitVec.twoPow w (w - 1)) = 2 ^ w - 1 := by
  have hpos := two_pow_sub_one_pos hw
  apply minimalPeriod_eq_of_prime
  · rw [← power_eq_iterate h.linear h.movesDown (by omega : _ < 2 ^ w), h.returns]
  · intro p hp hdvd
    have hle : (2 ^ w - 1) / p ≤ 2 ^ w - 1 := Nat.div_le_self _ _
    rw [← power_eq_iterate h.linear h.movesDown (by omega : _ < 2 ^ w)]
    exact h.prime p hp hdvd

include h hw in
theorem iterate_twoPow_ne_zero (k : Nat) : f^[k] (BitVec.twoPow w (w - 1)) ≠ 0#w := by
  intro hzero
  have hperiod := h.minimalPeriod_twoPow hw
  obtain ⟨i, -, hi⟩ := exists_iterate_iterate (f := f) (x := BitVec.twoPow w (w - 1))
    (by rw [hperiod]; exact two_pow_sub_one_pos hw) k 0
  rw [hzero, (h.linear.iterate i).map_zero, iterate_zero_apply] at hi
  have hbit := congrArg (fun a => BitVec.getLsbD a (w - 1)) hi
  simp [hw] at hbit

include h hw in
/-- **The orbit of the highest bit** leaves out zero only: there are as many iterates in a
period as bit vectors that are not zero. -/
theorem exists_iterate_eq {x : BitVec w} (hx : x ≠ 0#w) :
    ∃ k, f^[k] (BitVec.twoPow w (w - 1)) = x := by
  have hperiod := h.minimalPeriod_twoPow hw
  set e := BitVec.twoPow w (w - 1) with he
  have hmaps : ∀ k ∈ Finset.range (2 ^ w - 1),
      (f^[k] e).toNat ∈ Finset.Ico 1 (2 ^ w) := by
    intro k _
    have hne := h.iterate_twoPow_ne_zero hw k
    have hnat : (f^[k] e).toNat ≠ 0 := fun hz => hne (BitVec.eq_of_toNat_eq (by simpa using hz))
    exact Finset.mem_Ico.mpr ⟨Nat.one_le_iff_ne_zero.mpr hnat, (f^[k] e).isLt⟩
  have hinj : Set.InjOn (fun k => (f^[k] e).toNat) (Finset.range (2 ^ w - 1)) := by
    intro i hi j hj heq
    have hlt (k : Nat) (hk : k ∈ (Finset.range (2 ^ w - 1) : Set Nat)) : k < minimalPeriod f e := by
      rw [hperiod]
      exact Finset.mem_range.mp hk
    exact (iterate_eq_iterate_iff_of_lt_minimalPeriod (hlt i hi) (hlt j hj)).mp
      (BitVec.eq_of_toNat_eq heq)
  have hsurj := Finset.surj_on_of_inj_on_of_card_le (s := Finset.range (2 ^ w - 1))
    (t := Finset.Ico 1 (2 ^ w)) (fun k _ => (f^[k] e).toNat) hmaps
    (fun i j hi hj heq => hinj hi hj heq) (by simp)
  have hxmem : x.toNat ∈ Finset.Ico 1 (2 ^ w) := by
    have hnat : x.toNat ≠ 0 := fun hz => hx (BitVec.eq_of_toNat_eq (by simpa using hz))
    exact Finset.mem_Ico.mpr ⟨Nat.one_le_iff_ne_zero.mpr hnat, x.isLt⟩
  obtain ⟨k, -, hk⟩ := hsurj _ hxmem
  exact ⟨k, BitVec.eq_of_toNat_eq hk.symm⟩

variable {x y : BitVec w}

include h hw in
theorem minimalPeriod_eq (hx : x ≠ 0#w) : minimalPeriod f x = 2 ^ w - 1 := by
  have hperiod := h.minimalPeriod_twoPow hw
  obtain ⟨k, rfl⟩ := h.exists_iterate_eq hw hx
  rw [minimalPeriod_iterate (by rw [hperiod]; exact two_pow_sub_one_pos hw), hperiod]

include h hw in
theorem iterate_ne_zero (hx : x ≠ 0#w) (k : Nat) : f^[k] x ≠ 0#w := by
  obtain ⟨i, rfl⟩ := h.exists_iterate_eq hw hx
  rw [← iterate_add_apply]
  exact h.iterate_twoPow_ne_zero hw (k + i)

include h hw in
theorem exists_iterate (hx : x ≠ 0#w) (hy : y ≠ 0#w) : ∃ k < 2 ^ w - 1, f^[k] x = y := by
  have hperiod := h.minimalPeriod_twoPow hw
  obtain ⟨i, rfl⟩ := h.exists_iterate_eq hw hx
  obtain ⟨j, rfl⟩ := h.exists_iterate_eq hw hy
  rw [← hperiod]
  exact exists_iterate_iterate (by rw [hperiod]; exact two_pow_sub_one_pos hw) i j

end Primitive

end Linear

end Chronos.Lib
