import Mathlib.Algebra.GCDMonoid.Multiset
import Mathlib.Algebra.GCDMonoid.Nat
import Chronos.Task.Hyperperiod

/-!
# Hyper-periods of any periods

`taskset_lcm` takes periods that are `unsigned long`. In a round with the multiple `m` so
far and a period `n`, the first number that is kept in an `int` is the smaller operand if
it is swapped, the divisor if it divides, and the remainder otherwise. If that `int` holds
it, the round is exact, since the numbers after it are smaller.
-/

namespace Chronos

open Lib

/-- The first number that a round keeps in an `int` is one that an `int` holds. -/
def RoundHolds (m n : Nat) : Prop :=
  if m < n then toInt m = m else if n ∣ m then toInt n = n else toInt (m % n : Nat) = (m % n : Nat)

instance (m n : Nat) : Decidable (RoundHolds m n) := by
  unfold RoundHolds
  infer_instance

/-- So it is in every round, from the multiple `m` on. -/
def RoundsHold : Nat → List Nat → Prop
  | _, [] => True
  | m, n :: periods => RoundHolds m n ∧ RoundsHold (m.lcm n) periods

theorem lt_of_toInt_eq {v : Nat} (h : toInt v = v) : v < 2 ^ 31 := by
  unfold toInt at h
  have hlt := Int.bmod_lt (x := v) (m := 2 ^ 32) (by norm_num)
  omega

/-- **A round that holds its first number is exact**: `gcd` is the greatest common
divisor, and an `int` holds it. -/
theorem gcd_eq_of_roundHolds {m n : Nat} (hm : 0 < m) (hn : 0 < n) (h : RoundHolds m n) :
    gcd m n = .ok (m.gcd n) ∧ m.gcd n < 2 ^ 31 := by
  unfold RoundHolds at h
  split at h
  · next hlt =>
    -- the call with the operands swapped has a small divisor
    have hm31 := lt_of_toInt_eq h
    have hswap : gcd m n = gcd n m := by
      rw [gcd_eq (show gcdOperands m n = (n, m) by
        rw [gcdOperands, if_pos hlt, (isInt_of_lt hm31).toULong_toInt]),
        gcd_eq (show gcdOperands n m = (n, m) from if_neg (not_lt_of_gt hlt))]
    refine ⟨?_, (Nat.le_of_dvd hm (Nat.gcd_dvd_left m n)).trans_lt hm31⟩
    rw [hswap, gcd_eq_natGcd hn hm hm31, Nat.gcd_comm]
  · next hge =>
    have hp : gcdOperands m n = (m, n) := if_neg hge
    rw [gcd_eq hp, if_neg hn.ne']
    split at h
    · next hdvd =>
      have hmod : m % n = 0 := Nat.mod_eq_zero_of_dvd hdvd
      rw [hmod, if_pos (Nat.zero_mod _), Nat.gcd_eq_right hdvd]
      exact ⟨rfl, lt_of_toInt_eq h⟩
    · next hdvd =>
      have hr31 := lt_of_toInt_eq h
      have hr : 0 < m % n := Nat.pos_of_ne_zero fun hz => hdvd (Nat.dvd_of_mod_eq_zero hz)
      have hgcd : m.gcd n = n.gcd (m % n) := by rw [Nat.gcd_comm m, Nat.gcd_rec, Nat.gcd_comm]
      rw [if_neg (by omega), (isInt_of_lt hr31).toULong_toInt, gcd_eq_natGcd hn hr hr31, hgcd]
      exact ⟨rfl, (Nat.le_of_dvd hr (Nat.gcd_dvd_right n _)).trans_lt hr31⟩

theorem foldlM_lcmStep_eq_of_roundsHold {periods : List Nat} {m : Nat} (hm : 0 < m)
    (hpos : ∀ p ∈ periods, 0 < p) (h : RoundsHold m periods)
    (hlcm : periods.foldl Nat.lcm m < 2 ^ 63) :
    periods.foldlM lcmStep (m : Int) = .ok (periods.foldl Nat.lcm m : Nat) := by
  induction periods generalizing m with
  | nil => rfl
  | cons n periods ih =>
    obtain ⟨hround, hrounds⟩ := h
    have hn := hpos n List.mem_cons_self
    have hrest := fun p hp => hpos p (List.mem_cons_of_mem n hp)
    have hstep : 0 < m.lcm n := Nat.lcm_pos hm hn
    have hle := Nat.le_of_dvd (foldl_lcm_pos hstep hrest) (dvd_foldl_lcm periods (m.lcm n))
    obtain ⟨hgcd, hint⟩ := gcd_eq_of_roundHolds hm hn hround
    rw [foldlM_cons_eq_ok]
    exact ⟨_, lcmStep_eq_of_gcd hm hn hgcd hint (hle.trans_lt hlcm), ih hstep hrest hrounds hlcm⟩

theorem foldl_lcm_eq (periods : List Nat) (m : Nat) :
    periods.foldl Nat.lcm m = ((m :: periods : List Nat) : Multiset Nat).lcm := by
  induction periods generalizing m with
  | nil => simp
  | cons n periods ih =>
    rw [List.foldl_cons, ih, ← Multiset.cons_coe, ← Multiset.cons_coe, ← Multiset.cons_coe,
      Multiset.lcm_cons, Multiset.lcm_cons, Multiset.lcm_cons]
    exact lcm_assoc m n _

/-- A first round that does not hold its number is reached with an exact multiple. -/
theorem exists_round_of_not_roundsHold {periods : List Nat} {m : Nat} (h : ¬RoundsHold m periods) :
    ∃ before n after, periods = before ++ n :: after ∧ RoundsHold m before ∧
      ¬RoundHolds (before.foldl Nat.lcm m) n := by
  induction periods generalizing m with
  | nil => exact absurd trivial h
  | cons n periods ih =>
    by_cases hround : RoundHolds m n
    · obtain ⟨before, k, after, rfl, hbefore, hk⟩ := ih fun hrest => h ⟨hround, hrest⟩
      exact ⟨n :: before, k, after, rfl, ⟨hround, hbefore⟩, hk⟩
    · exact ⟨[], n, periods, rfl, trivial, hround⟩

/-- **The hyper-period is the least common multiple**, in any order of the tasks, if each
round holds its first number; otherwise a round that does not is reached. -/
theorem tasksetLcm_eq_lcm {period : Nat} {periods : List Nat}
    (hpos : ∀ p ∈ period :: periods, 0 < p)
    (hlcm : ((period :: periods : List Nat) : Multiset Nat).lcm < 2 ^ 63) :
    (RoundsHold period periods →
      tasksetLcm (period :: periods) =
        .ok (((period :: periods : List Nat) : Multiset Nat).lcm : Nat)) ∧
    (¬RoundsHold period periods →
      ∃ before n after, periods = before ++ n :: after ∧
        tasksetLcm (period :: before) =
          .ok (((period :: before : List Nat) : Multiset Nat).lcm : Nat) ∧
        ¬RoundHolds ((period :: before : List Nat) : Multiset Nat).lcm n) := by
  have hperiod := hpos period List.mem_cons_self
  have hrest := fun p hp => hpos p (List.mem_cons_of_mem period hp)
  have hexact : ∀ ps, (∀ p ∈ ps, 0 < p) → ps.foldl Nat.lcm period < 2 ^ 63 →
      RoundsHold period ps →
      tasksetLcm (period :: ps) = .ok (((period :: ps : List Nat) : Multiset Nat).lcm : Nat) := by
    intro ps hps hlt h
    have hle := Nat.le_of_dvd (foldl_lcm_pos hperiod hps) (dvd_foldl_lcm ps period)
    rw [tasksetLcm, toLong_eq_self (by omega) (by omega),
      foldlM_lcmStep_eq_of_roundsHold hperiod hps h hlt, foldl_lcm_eq]
  rw [← foldl_lcm_eq] at hlcm
  refine ⟨hexact periods hrest hlcm, fun h => ?_⟩
  obtain ⟨before, n, after, rfl, hbefore, hn⟩ := exists_round_of_not_roundsHold h
  refine ⟨before, n, after, rfl, hexact before ?_ ?_ hbefore, ?_⟩
  · exact fun p hp => hrest p (List.mem_append_left _ hp)
  · rw [List.foldl_append] at hlcm
    refine lt_of_le_of_lt (Nat.le_of_dvd ?_ (dvd_foldl_lcm (n :: after) _)) hlcm
    exact foldl_lcm_pos (foldl_lcm_pos hperiod fun p hp => hrest p (List.mem_append_left _ hp))
      fun p hp => hrest p (List.mem_append_right _ hp)
  · rwa [← foldl_lcm_eq]

/-- Periods of 6000 s and 3000 s: the divisor 3000000000 is no `int`, and the hyper-period
becomes -12000 s. -/
theorem not_tasksetLcm_eq_lcm_seconds :
    (∀ p ∈ [6000000000, 3000000000], 0 < p) ∧
      (([6000000000, 3000000000] : List Nat) : Multiset Nat).lcm < 2 ^ 63 ∧
      tasksetLcm [6000000000, 3000000000] = .ok (-12000000000) ∧
      tasksetLcm [6000000000, 3000000000] ≠
        .ok ((([6000000000, 3000000000] : List Nat) : Multiset Nat).lcm : Nat) := by
  have hgcd : gcd 6000000000 3000000000 = .ok 3000000000 := by
    rw [gcd_eq (a := 6000000000) (b := 3000000000) (by decide)]
    decide
  have hlong : toULong (toLong (6000000000 : Nat)) = 6000000000 := by decide
  have hrun : tasksetLcm [6000000000, 3000000000] = .ok (-12000000000) := by
    simp only [tasksetLcm, List.foldlM_cons, List.foldlM_nil, lcmStep, hlong, hgcd]
    decide
  refine ⟨by decide, by decide, hrun, ?_⟩
  rw [hrun]
  decide

/-- Periods of 6000 s and 4000 s, with a remainder of 2000 s. -/
theorem tasksetLcm_eq_lcm_seconds :
    tasksetLcm [6000000000, 4000000000] =
      .ok ((([6000000000, 4000000000] : List Nat) : Multiset Nat).lcm : Nat) :=
  (And.left <| tasksetLcm_eq_lcm (by decide) (by decide)) ⟨by decide, trivial⟩

end Chronos
