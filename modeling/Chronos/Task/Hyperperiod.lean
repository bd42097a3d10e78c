import Mathlib.Tactic.Ring
import Chronos.Lib.Fold
import Chronos.Lib.Scanf

/-!
# The hyper-period

`taskset_lcm` and `gcd` compute with `unsigned long`, but keep a remainder, an operand
that is swapped and the divisor of the loop in an `int`. So their divisors are zero not
only for a period of zero, but also where the 32 bits that an `int` keeps are.
-/

namespace Chronos

open Lib

abbrev LONG_MIN : Int := -2 ^ 63

/-- Why the computation does not return. -/
inductive Trap
  | divisionByZero
  | overflow
  /-- There is no `tasks[0]`. -/
  | noTasks
  deriving DecidableEq, Repr

/-- The number is an `int` that was converted to `unsigned long`. -/
def IsInt (v : Nat) : Prop := v < 2 ^ 31 ∨ (2 ^ 64 - 2 ^ 31 ≤ v ∧ v < 2 ^ 64)

instance (v : Nat) : Decidable (IsInt v) := inferInstanceAs (Decidable (_ ∨ _))

/-- What an `unsigned long` becomes that is kept in an `int`. -/
theorem toULong_toInt (v : Nat) : toULong (toInt v) =
    if v % 2 ^ 32 < 2 ^ 31 then v % 2 ^ 32 else v % 2 ^ 32 + (2 ^ 64 - 2 ^ 32) := by
  unfold toULong toInt
  rw [Int.bmod_def]
  split <;> split <;> omega

theorem isInt_toULong_toInt (v : Nat) : IsInt (toULong (toInt v)) := by
  rw [toULong_toInt]
  unfold IsInt
  split <;> omega

theorem IsInt.toULong_toInt {v : Nat} (h : IsInt v) : toULong (toInt v) = v := by
  rw [Chronos.toULong_toInt]
  unfold IsInt at h
  split <;> omega

theorem toInt_eq_zero_iff {v : Nat} : toInt v = 0 ↔ v % 2 ^ 32 = 0 := by
  unfold toInt
  rw [Int.bmod_def]
  split <;> omega

theorem toULong_toInt_eq_zero_iff {v : Nat} : toULong (toInt v) = 0 ↔ v % 2 ^ 32 = 0 := by
  rw [toULong_toInt]
  split <;> omega

/-- The operands of the division in `gcd`; the smaller one of two that are swapped
passes through an `int`. -/
def gcdOperands (m n : Nat) : Nat × Nat := if m < n then (n, toULong (toInt m)) else (m, n)

/-- How far a call of `gcd` is from its end: how many of its arguments are not from an
`int`, and then how large the smaller one is. -/
def gcdMeasure (m n : Nat) : Nat × Nat :=
  ((if IsInt n then 0 else 2) + (if IsInt m then 0 else 1), min m n)

/-- The remainder of two numbers from an `int` is one that an `int` keeps. -/
theorem mod_lt_of_isInt {a b : Nat} (ha : IsInt a) (hb : IsInt b) (hpos : b ≠ 0) (hle : b ≤ a) :
    a % b < 2 ^ 31 := by
  rcases hb with hb | ⟨hb, -⟩
  · exact (Nat.mod_lt a (Nat.pos_of_ne_zero hpos)).trans hb
  · rw [Nat.mod_eq_sub_mod hle]
    have hmod := Nat.mod_le (a - b) b
    unfold IsInt at ha
    omega

theorem isInt_of_lt {v : Nat} (h : v < 2 ^ 31) : IsInt v := .inl h

/-- Of two numbers from an `int` the smaller one is the divisor. -/
theorem gcdOperands_of_isInt {m n : Nat} (hm : IsInt m) :
    gcdOperands m n = (max m n, min m n) := by
  unfold gcdOperands
  rw [hm.toULong_toInt]
  split
  · next hlt => rw [max_eq_right hlt.le, min_eq_left hlt.le]
  · next hle => rw [max_eq_left (not_lt.mp hle), min_eq_right (not_lt.mp hle)]

theorem isInt_min {m n : Nat} (hm : IsInt m) (hn : IsInt n) : IsInt (min m n) := by
  rcases min_choice m n with h | h <;> rwa [h]

theorem isInt_max {m n : Nat} (hm : IsInt m) (hn : IsInt n) : IsInt (max m n) := by
  rcases max_choice m n with h | h <;> rwa [h]

/-- The recursive call is closer to its end. -/
theorem gcdMeasure_lt {m n a b : Nat} (hb : b ≠ 0) (hp : gcdOperands m n = (a, b)) :
    Prod.Lex (· < ·) (· < ·) (gcdMeasure b (toULong (toInt (a % b : Nat)))) (gcdMeasure m n) := by
  have hr := isInt_toULong_toInt (a % b)
  unfold gcdMeasure
  rw [if_pos hr]
  by_cases hn : IsInt n
  · by_cases hm : IsInt m
    · -- the divisor becomes the larger argument
      rw [gcdOperands_of_isInt hm] at hp
      obtain ⟨rfl, rfl⟩ := Prod.mk.inj hp
      have hmod := mod_lt_of_isInt (isInt_max hm hn) (isInt_min hm hn) hb min_le_max
      rw [if_pos hm, if_pos hn, if_pos (isInt_min hm hn), (isInt_of_lt hmod).toULong_toInt]
      apply Prod.Lex.right
      exact (min_le_right _ _).trans_lt (Nat.mod_lt _ (Nat.pos_of_ne_zero hb))
    · have hbInt : IsInt b := by
        unfold gcdOperands at hp
        split at hp
        · exact (Prod.mk.inj hp).2 ▸ isInt_toULong_toInt m
        · exact (Prod.mk.inj hp).2 ▸ hn
      rw [if_pos hn, if_neg hm, if_pos hbInt]
      exact Prod.Lex.left _ _ (by norm_num)
  · rw [if_neg hn]
    apply Prod.Lex.left
    split <;> split <;> omega

/-- `gcd` -/
def gcd (m n : Nat) : Except Trap Nat :=
  match _hp : gcdOperands m n with
  | (a, b) =>
    if _hb : b = 0 then .error .divisionByZero
    else if toInt (a % b : Nat) = 0 then .ok b
    else gcd b (toULong (toInt (a % b : Nat)))
termination_by gcdMeasure m n
decreasing_by exact gcdMeasure_lt _hb _hp

theorem gcd_eq {m n a b : Nat} (hp : gcdOperands m n = (a, b)) : gcd m n =
    if b = 0 then .error .divisionByZero
    else if a % b % 2 ^ 32 = 0 then .ok b
    else gcd b (toULong (toInt (a % b : Nat))) := by
  rw [gcd, hp]
  simp only [toInt_eq_zero_iff, dite_eq_ite]

/-- One round of the loop of `taskset_lcm`. -/
def lcmStep (lcm : Int) (period : Nat) : Except Trap Int := do
  let d ← gcd (toULong lcm) period
  if toInt d = 0 then throw .divisionByZero
  else if lcm = LONG_MIN ∧ toInt d = -1 then throw .overflow
  else return toLong (toULong (lcm.tdiv (toInt d)) * period)

/-- `taskset_lcm`, of the periods in the order of the array. -/
def tasksetLcm : List Nat → Except Trap Int
  | [] => .error .noTasks
  | period :: periods => periods.foldlM lcmStep (toLong period)

/-! ## Divisions by zero -/

theorem toInt_ne_zero_of_isInt {d : Nat} (h : IsInt d) (hd : d ≠ 0) : toInt d ≠ 0 := by
  rw [Ne, toInt_eq_zero_iff, ← toULong_toInt_eq_zero_iff, h.toULong_toInt]
  exact hd

/-- From numbers that come from an `int` and are not zero, `gcd` returns one. -/
theorem gcd_of_isInt {m n : Nat} (hm : IsInt m) (hn : IsInt n) (hm0 : m ≠ 0) (hn0 : n ≠ 0) :
    ∃ d, gcd m n = .ok d ∧ toInt d ≠ 0 := by
  induction m, n using gcd.induct with
  | case1 m n a hp =>
    rw [gcdOperands_of_isInt hm] at hp
    have hmin := (Prod.mk.inj hp).2
    omega
  | case2 m n a b hp hb hr =>
    rw [gcdOperands_of_isInt hm] at hp
    rw [gcd_eq (gcdOperands_of_isInt hm), (Prod.mk.inj hp).1, (Prod.mk.inj hp).2, if_neg hb,
      if_pos (toInt_eq_zero_iff.mp hr)]
    have hbInt := (Prod.mk.inj hp).2 ▸ isInt_min hm hn
    exact ⟨b, rfl, toInt_ne_zero_of_isInt hbInt hb⟩
  | case3 m n a b hp hb hr ih =>
    rw [gcd_eq hp, if_neg hb, if_neg (mt toInt_eq_zero_iff.mpr hr)]
    rw [gcdOperands_of_isInt hm] at hp
    have hbInt := (Prod.mk.inj hp).2 ▸ isInt_min hm hn
    exact ih hbInt (isInt_toULong_toInt _) hb
      (mt toULong_toInt_eq_zero_iff.mp (mt toInt_eq_zero_iff.mpr hr))

/-- It is enough that the first divisor comes from an `int`. -/
theorem gcd_of_divisor {m n a b : Nat} (hp : gcdOperands m n = (a, b)) (hb : IsInt b)
    (hb0 : b ≠ 0) : ∃ d, gcd m n = .ok d ∧ toInt d ≠ 0 := by
  rw [gcd_eq hp, if_neg hb0]
  split
  · exact ⟨b, rfl, toInt_ne_zero_of_isInt hb hb0⟩
  · next hr =>
    exact gcd_of_isInt hb (isInt_toULong_toInt _) hb0 (mt toULong_toInt_eq_zero_iff.mp hr)

/-- A round of the loop divides by zero, in `gcd` or after it: for a period of zero, if
the multiple so far is smaller than the period and its lower half is zero, or if the
lower half of the period is zero and that of the multiple is no positive `int`. -/
def DividesByZero (multiple period : Nat) : Prop :=
  period = 0 ∨ (multiple < period ∧ multiple % 2 ^ 32 = 0) ∨
    (period ≤ multiple ∧ period % 2 ^ 32 = 0 ∧
      (multiple % 2 ^ 32 = 0 ∨ 2 ^ 31 ≤ multiple % 2 ^ 32))

instance (multiple period : Nat) : Decidable (DividesByZero multiple period) :=
  inferInstanceAs (Decidable (_ ∨ _))

/-- **`gcd` and the division by its result** are by zero under this condition only. -/
theorem gcd_cases {m n : Nat} (hn : n < 2 ^ 64) :
    (DividesByZero m n ∧
        (gcd m n = .error .divisionByZero ∨ ∃ d, gcd m n = .ok d ∧ toInt d = 0)) ∨
      (¬DividesByZero m n ∧ ∃ d, gcd m n = .ok d ∧ toInt d ≠ 0) := by
  by_cases hlt : m < n
  · have hp : gcdOperands m n = (n, toULong (toInt m)) := if_pos hlt
    by_cases hm : m % 2 ^ 32 = 0
    · refine .inl ⟨.inr (.inl ⟨hlt, hm⟩), .inl ?_⟩
      rw [gcd_eq hp, if_pos (toULong_toInt_eq_zero_iff.mpr hm)]
    · refine .inr ⟨?_, gcd_of_divisor hp (isInt_toULong_toInt m)
        (mt toULong_toInt_eq_zero_iff.mp hm)⟩
      unfold DividesByZero
      omega
  · have hp : gcdOperands m n = (m, n) := if_neg hlt
    rw [gcd_eq hp]
    by_cases hn0 : n = 0
    · rw [if_pos hn0]
      exact .inl ⟨.inl hn0, .inl rfl⟩
    rw [if_neg hn0]
    by_cases hlow : n % 2 ^ 32 = 0
    · -- the remainder has the lower half of `m`
      have hmod : m % n % 2 ^ 32 = m % 2 ^ 32 :=
        Nat.mod_mod_of_dvd m (Nat.dvd_of_mod_eq_zero hlow)
      rw [hmod]
      by_cases hm : m % 2 ^ 32 = 0
      · rw [if_pos hm]
        exact .inl ⟨.inr (.inr ⟨not_lt.mp hlt, hlow, .inl hm⟩), .inr ⟨n, rfl,
          toInt_eq_zero_iff.mpr hlow⟩⟩
      rw [if_neg hm]
      have hr := toULong_toInt (m % n)
      rw [hmod] at hr
      by_cases hneg : 2 ^ 31 ≤ m % 2 ^ 32
      · -- the remainder is a negative `int`, so that the divisor is swapped away
        rw [if_neg (not_lt.mpr hneg)] at hr
        have hp' : gcdOperands n (toULong (toInt (m % n : Nat))) =
            (toULong (toInt (m % n : Nat)), toULong (toInt n)) := if_pos (by omega)
        refine .inl ⟨.inr (.inr ⟨not_lt.mp hlt, hlow, .inr hneg⟩), .inl ?_⟩
        rw [gcd_eq hp', if_pos (toULong_toInt_eq_zero_iff.mpr hlow)]
      · rw [if_pos (not_le.mp hneg)] at hr
        have hp' : gcdOperands n (toULong (toInt (m % n : Nat))) =
            (n, toULong (toInt (m % n : Nat))) := if_neg (by omega)
        refine .inr ⟨?_, gcd_of_divisor hp' (isInt_toULong_toInt _) (by omega)⟩
        unfold DividesByZero
        omega
    · have hnot : ¬DividesByZero m n := by
        unfold DividesByZero
        omega
      split
      · exact .inr ⟨hnot, n, rfl, mt toInt_eq_zero_iff.mp hlow⟩
      · next hr =>
        refine .inr ⟨hnot, ?_⟩
        have hr0 := mt toULong_toInt_eq_zero_iff.mp hr
        by_cases hlt' : n < toULong (toInt (m % n : Nat))
        · exact gcd_of_divisor (if_pos hlt') (isInt_toULong_toInt n)
            (mt toULong_toInt_eq_zero_iff.mp hlow)
        · exact gcd_of_divisor (if_neg hlt') (isInt_toULong_toInt _) hr0

example : DividesByZero (2 ^ 32 + 2 ^ 31) (2 ^ 32) := by decide

theorem lcmStep_eq_zero_iff {lcm : Int} {period : Nat} (h : period < 2 ^ 64) :
    lcmStep lcm period = .error .divisionByZero ↔ DividesByZero (toULong lcm) period := by
  unfold lcmStep
  rcases gcd_cases (m := toULong lcm) h with ⟨hzero, hgcd | ⟨d, hgcd, hd⟩⟩ | ⟨hzero, d, hgcd, hd⟩
  · simp [hgcd, hzero, bind, Except.bind]
  · simp [hgcd, hzero, hd, bind, Except.bind, throw, throwThe, MonadExceptOf.throw]
  · simp only [hgcd, hzero, hd, bind, Except.bind, if_false, iff_false]
    split <;> nofun

/-- No round divides by zero. -/
def NoRoundDividesByZero : Int → List Nat → Prop
  | _, [] => True
  | lcm, period :: periods => ¬DividesByZero (toULong lcm) period ∧
    ∀ lcm', lcmStep lcm period = .ok lcm' → NoRoundDividesByZero lcm' periods

/-- **The loop of `taskset_lcm` never divides by zero** exactly when no round does. -/
theorem foldlM_lcmStep_ne_zero_iff {lcm : Int} {periods : List Nat}
    (h : ∀ p ∈ periods, p < 2 ^ 64) :
    periods.foldlM lcmStep lcm ≠ .error .divisionByZero ↔ NoRoundDividesByZero lcm periods := by
  induction periods generalizing lcm with
  | nil =>
    simp only [NoRoundDividesByZero, iff_true]
    nofun
  | cons period periods ih =>
    have hrest := fun p hp => h p (List.mem_cons_of_mem period hp)
    rw [NoRoundDividesByZero, ← lcmStep_eq_zero_iff (h period List.mem_cons_self), List.foldlM_cons]
    cases hstep : lcmStep lcm period with
    | error e => simp [bind, Except.bind]
    | ok lcm' => simp [bind, Except.bind, ← ih hrest]

/-! ## Where the computation is exact -/

theorem gcdOperands_of_lt {m n : Nat} (hn : n < 2 ^ 31) :
    gcdOperands m n = (max m n, min m n) := by
  by_cases hlt : m < n
  · exact gcdOperands_of_isInt (isInt_of_lt (hlt.trans hn))
  · have hle := not_lt.mp hlt
    rw [gcdOperands, if_neg hlt, max_eq_left hle, min_eq_right hle]

theorem natGcd_eq_min_mod (m n : Nat) : m.gcd n = (min m n).gcd (max m n % min m n) := by
  rw [Nat.gcd_comm (min m n), ← Nat.gcd_rec]
  rcases le_total m n with hle | hle
  · rw [max_eq_right hle, min_eq_left hle]
  · rw [max_eq_left hle, min_eq_right hle, Nat.gcd_comm]

theorem gcd_eq_natGcd {m n : Nat} (hm : 0 < m) (hn : 0 < n) (hn31 : n < 2 ^ 31) :
    gcd m n = .ok (m.gcd n) := by
  induction m, n using gcd.induct with
  | case1 m n a hp =>
    have hmin := (Prod.mk.inj ((gcdOperands_of_lt hn31).symm.trans hp)).2
    omega
  | case2 m n a b hp hb hr =>
    obtain ⟨rfl, rfl⟩ := Prod.mk.inj ((gcdOperands_of_lt hn31).symm.trans hp)
    have hlt := Nat.mod_lt (max m n) (Nat.pos_of_ne_zero hb)
    have hmod : max m n % min m n = 0 := by
      have hlow := toInt_eq_zero_iff.mp hr
      omega
    rw [gcd_eq hp, if_neg hb, hmod, Nat.zero_mod, if_pos rfl, natGcd_eq_min_mod, hmod,
      Nat.gcd_zero_right]
  | case3 m n a b hp hb hr ih =>
    obtain ⟨rfl, rfl⟩ := Prod.mk.inj ((gcdOperands_of_lt hn31).symm.trans hp)
    have hlt := Nat.mod_lt (max m n) (Nat.pos_of_ne_zero hb)
    have hlow := mt toInt_eq_zero_iff.mpr hr
    have hint : IsInt (max m n % min m n) := isInt_of_lt (by omega)
    rw [hint.toULong_toInt] at ih
    rw [gcd_eq hp, if_neg hb, if_neg hlow, hint.toULong_toInt, natGcd_eq_min_mod]
    exact ih (Nat.pos_of_ne_zero hb) (by omega) (by omega)

/-- A round with an exact divisor that an `int` holds is exact. -/
theorem lcmStep_eq_of_gcd {m n : Nat} (hm : 0 < m) (hn : 0 < n)
    (hgcd : gcd m n = .ok (m.gcd n)) (hint : m.gcd n < 2 ^ 31) (hlcm : m.lcm n < 2 ^ 63) :
    lcmStep m n = .ok (m.lcm n : Nat) := by
  have hle : m ≤ m.lcm n := Nat.le_of_dvd (Nat.lcm_pos hm hn) (Nat.dvd_lcm_left m n)
  have hlong : toULong (m : Int) = m := by
    unfold toULong
    omega
  have hd0 : 0 < m.gcd n := Nat.gcd_pos_of_pos_left n hm
  have hint : toInt (m.gcd n : Nat) = (m.gcd n : Nat) := toInt_eq_self (by omega) (by omega)
  have hdiv : toULong ((m : Int).tdiv (m.gcd n : Nat)) = m / m.gcd n := by
    rw [Int.tdiv_eq_ediv_of_nonneg (Int.natCast_nonneg m), ← Int.natCast_ediv]
    have hquot := Nat.div_le_self m (m.gcd n)
    generalize m / m.gcd n = q at hquot
    unfold toULong
    omega
  have hmul : m / m.gcd n * n = m.lcm n := by
    rw [Nat.lcm_eq_mul_div, Nat.div_mul_right_comm (Nat.gcd_dvd_left m n)]
  have hd_ne : toInt (m.gcd n : Nat) ≠ 0 := by omega
  have hm_ne : ¬((m : Int) = LONG_MIN ∧ toInt (m.gcd n : Nat) = -1) := by omega
  unfold lcmStep
  rw [hlong, bind_eq_ok]
  refine ⟨m.gcd n, hgcd, ?_⟩
  rw [if_neg hd_ne, if_neg hm_ne, hint, hdiv, ← Nat.cast_mul, hmul,
    toLong_eq_self (by omega) (by omega)]
  rfl

theorem lcmStep_eq_natLcm {m n : Nat} (hm : 0 < m) (hn : 0 < n) (hn31 : n < 2 ^ 31)
    (hlcm : m.lcm n < 2 ^ 63) : lcmStep m n = .ok (m.lcm n : Nat) :=
  lcmStep_eq_of_gcd hm hn (gcd_eq_natGcd hm hn hn31)
    ((Nat.le_of_dvd hn (Nat.gcd_dvd_right m n)).trans_lt hn31) hlcm

theorem dvd_foldl_lcm (periods : List Nat) (m : Nat) : m ∣ periods.foldl Nat.lcm m := by
  induction periods generalizing m with
  | nil => exact dvd_rfl
  | cons period periods ih => exact (Nat.dvd_lcm_left m period).trans (ih (m.lcm period))

theorem foldl_lcm_pos {periods : List Nat} {m : Nat} (hm : 0 < m)
    (h : ∀ p ∈ periods, 0 < p) : 0 < periods.foldl Nat.lcm m := by
  induction periods generalizing m with
  | nil => exact hm
  | cons period periods ih =>
    exact ih (Nat.lcm_pos hm (h period List.mem_cons_self))
      fun p hp => h p (List.mem_cons_of_mem period hp)

/-- **`taskset_lcm` is the least common multiple** of periods from an `int` that are
not zero, if it fits a `long`; then no round divides by zero. -/
theorem foldlM_lcmStep_eq {periods : List Nat} {m : Nat} (hm : 0 < m)
    (h : ∀ p ∈ periods, 0 < p ∧ p < 2 ^ 31) (hlcm : periods.foldl Nat.lcm m < 2 ^ 63) :
    periods.foldlM lcmStep (m : Int) = .ok (periods.foldl Nat.lcm m : Nat) := by
  induction periods generalizing m with
  | nil => rfl
  | cons period periods ih =>
    obtain ⟨hpos, hlt⟩ := h period List.mem_cons_self
    have hrest := fun p hp => h p (List.mem_cons_of_mem period hp)
    have hstep : 0 < m.lcm period := Nat.lcm_pos hm hpos
    have hall : 0 < periods.foldl Nat.lcm (m.lcm period) :=
      foldl_lcm_pos hstep fun p hp => (hrest p hp).1
    have hle := Nat.le_of_dvd hall (dvd_foldl_lcm periods (m.lcm period))
    rw [foldlM_cons_eq_ok]
    exact ⟨_, lcmStep_eq_natLcm hm hpos hlt (hle.trans_lt hlcm), ih hstep hrest hlcm⟩

end Chronos
