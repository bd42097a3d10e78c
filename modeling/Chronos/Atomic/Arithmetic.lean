import Chronos.Atomic.Defs
import Mathlib.Data.BitVec
import Mathlib.Tactic.Ring

/-!
# The arithmetic of the interface

One thread's calls against the arithmetic that their names promise. The subtraction,
the multiplication and the division of `atomic_int.h` all pass `AINT_ADD`, so that a
sequence of calls is right only where a sum is what it asks for.
-/

namespace Chronos.Atomic

open Lib Lib.Cas

/-! ## Where a sum is right -/

theorem add_eq_sub_iff {x v : BitVec 32} : x + v = x - v ↔ v = 0 ∨ v = BitVec.intMin 32 := by
  have hmin : BitVec.intMin 32 = 2147483648#32 := by decide
  rw [hmin]
  constructor
  · intro h
    have hdouble : v + v = 0 := by bv_omega
    bv_omega
  · rintro (rfl | rfl)
    · simp
    · bv_omega

theorem add_eq_mul_iff {x v : BitVec 32} : x + v = x * v ↔ (x - 1) * (v - 1) = 1 := by
  have hprod : (x - 1) * (v - 1) = x * v - (x + v) + 1 := by ring
  rw [hprod]
  generalize x * v = p
  generalize x + v = s
  constructor
  · rintro rfl
    simp
  · intro h
    bv_omega

/-- A dividend that is its quotient and its divisor together. -/
theorem eq_div_add_iff {y b : Nat} (hb : 1 < b) :
    y = y / b + b ↔ y = b + 1 ∨ (b = 2 ∧ y = 4) := by
  constructor
  · intro h
    have hy := Nat.div_add_mod y b
    have hr := Nat.mod_lt y (by omega : 0 < b)
    obtain ⟨c, rfl⟩ : ∃ c, b = c + 2 := ⟨b - 2, by omega⟩
    obtain ⟨q, hq⟩ : ∃ q, y / (c + 2) = q + 1 := by
      have hle : c + 2 ≤ y := (Nat.le_add_left _ _).trans_eq h.symm
      exact ⟨y / (c + 2) - 1, (Nat.sub_add_cancel (Nat.div_pos hle (by omega))).symm⟩
    rw [hq] at h hy
    have hsum : (c + 1) * q + y % (c + 2) = 1 := by
      have : (c + 2) * (q + 1) = (c + 1) * q + q + c + 2 := by ring
      omega
    rcases q with - | q
    · omega
    · have hexp : (c + 1) * (q + 1) = c * q + c + q + 1 := by ring
      generalize c * q = p at hexp
      have hc : c = 0 := by omega
      have hq0 : q = 0 := by omega
      omega
  · rintro (rfl | ⟨rfl, rfl⟩)
    · have hone : (b + 1) / b = 1 := Nat.div_eq_of_lt_le (by omega) (by omega)
      omega
    · rfl

theorem div_add_add_eq_iff {y w : Nat} (hy : y ≤ 2 ^ 31) (hw : w ≤ 2 ^ 31) :
    y / w + y + w = 2 ^ 32 ↔ y = 2 ^ 31 ∧ w = 2 ^ 31 - 1 := by
  constructor
  · intro h
    have hmul : w * (y / w) ≤ y := Nat.mul_div_le y w
    rcases Nat.lt_or_ge w 2 with hw2 | hw2
    · have hsmall : w = 0 ∨ w = 1 := by omega
      rcases hsmall with rfl | rfl
      · rw [Nat.div_zero] at h
        omega
      · rw [Nat.div_one] at h
        omega
    · rcases Nat.lt_or_ge w (2 ^ 31 - 1) with hlt | hge
      · -- the quotient would be too large for the dividend
        have hq : 2 ^ 31 - w ≤ y / w := by omega
        have hprod : w * (2 ^ 31 - w) ≤ 2 ^ 31 :=
          (Nat.mul_le_mul_left w hq).trans (hmul.trans hy)
        obtain ⟨c, rfl⟩ : ∃ c, w = c + 2 := ⟨w - 2, by omega⟩
        obtain ⟨d, hd⟩ : ∃ d, 2 ^ 31 - (c + 2) = d + 2 := ⟨2 ^ 31 - (c + 2) - 2, by omega⟩
        rw [hd] at hprod
        have hexp : (c + 2) * (d + 2) = c * d + 2 * (c + d) + 4 := by ring
        omega
      · have hlarge : w = 2 ^ 31 - 1 ∨ w = 2 ^ 31 := by omega
        rcases hlarge with rfl | rfl <;> omega
  · rintro ⟨rfl, rfl⟩
    decide

theorem eq_bmod_iff {q s : Int} (hs : -2 ^ 32 ≤ s ∧ s < 2 ^ 32) :
    q = s.bmod (2 ^ 32) ↔ (-2 ^ 31 ≤ q ∧ q < 2 ^ 31) ∧
      (q = s ∨ q = s + 2 ^ 32 ∨ q = s - 2 ^ 32) := by
  rw [Int.bmod_def]
  split <;> omega

theorem tdiv_eq_add_iff {a b : Int} (ha : -2 ^ 31 ≤ a ∧ a < 2 ^ 31)
    (hb : -2 ^ 31 ≤ b ∧ b < 2 ^ 31) (h0 : b ≠ 0) :
    a.tdiv b = (a + b).bmod (2 ^ 32) ↔
      (1 < b ∧ a = -(b + 1)) ∨ (b = 2 ∧ a = -4) ∨ (a = -2 ^ 31 ∧ b = -2 ^ 31 + 1) := by
  rw [eq_bmod_iff (by omega)]
  obtain ⟨y, hy⟩ := Int.eq_nat_or_neg a
  obtain ⟨w, hw⟩ := Int.eq_nat_or_neg b
  have hle := Nat.div_le_self y w
  -- the cases are the signs of the two numbers
  rcases hy with rfl | rfl <;> rcases hw with rfl | rfl <;>
    simp only [Int.tdiv_neg, Int.neg_tdiv, ← Int.ofNat_tdiv]
  · generalize y / w = q at *
    omega
  · have hzero : y < w → y / w = 0 := Nat.div_eq_of_lt
    have hpos : w ≤ y → 0 < y / w := fun h => Nat.div_pos h (by omega)
    generalize y / w = q at *
    omega
  · have hone : w = 1 → y / w = y := by
      rintro rfl
      exact Nat.div_one y
    have hdiff := @eq_div_add_iff y w
    generalize y / w = q at *
    omega
  · have hsum := @div_add_add_eq_iff y w (by omega) (by omega)
    generalize y / w = q at *
    omega

/-- `INT_MIN / -1` overflows. -/
def DivOverflow (x v : BitVec 32) : Prop := x = BitVec.intMin 32 ∧ v = -1

instance (x v : BitVec 32) : Decidable (DivOverflow x v) := inferInstanceAs (Decidable (_ ∧ _))

theorem add_eq_sdiv_iff {x v : BitVec 32} (h0 : v ≠ 0) (hov : ¬ DivOverflow x v) :
    x + v = x.sdiv v ↔
      (1 < v.toInt ∧ x.toInt = -(v.toInt + 1)) ∨ (v.toInt = 2 ∧ x.toInt = -4) ∨
        (x.toInt = -2 ^ 31 ∧ v.toInt = -2 ^ 31 + 1) := by
  have hdiv : (x.sdiv v).toInt = x.toInt.tdiv v.toInt := by
    refine BitVec.toInt_sdiv_of_ne_or_ne x v ?_
    by_contra hcon
    push Not at hcon
    exact hov hcon
  have hv0 : v.toInt ≠ 0 := fun h => h0 (BitVec.eq_of_toInt_eq (by simpa using h))
  have hx := And.intro x.le_toInt x.toInt_lt
  have hv := And.intro v.le_toInt v.toInt_lt
  rw [← tdiv_eq_add_iff (by simpa using hx) (by simpa using hv) hv0, ← hdiv,
    ← BitVec.toInt_inj, BitVec.toInt_add]
  exact eq_comm

/-! ## The named arithmetic -/

section

variable (x : BitVec 32)

/-- What the name of a call promises, in two's complement of 32 bits. There is nothing
to promise where a division traps. -/
def Call.named : Call → Option (BitVec 32 × Option (BitVec 32))
  | init => some (0, none)
  | get => some (x, some x)
  | set v => some (v, none)
  | add v => some (x + v, some (x + v))
  | sub v => some (x - v, some (x - v))
  | mul v => some (x * v, some (x * v))
  | div v => if v = 0 ∨ DivOverflow x v then none else some (x.sdiv v, some (x.sdiv v))
  | inc => some (x + 1, some (x + 1))
  | dec => some (x - 1, some (x - 1))
  | mod v => if v = 0 ∨ DivOverflow x v then none else some (x.srem v, some (x.srem v))

/-- The calls that a sum serves as well. -/
def Call.SumSuffices : Call → Prop
  | sub v => v = 0 ∨ v = BitVec.intMin 32
  | mul v => (x - 1) * (v - 1) = 1
  | div v => (1 < v.toInt ∧ x.toInt = -(v.toInt + 1)) ∨ (v.toInt = 2 ∧ x.toInt = -4) ∨
      (x.toInt = -2 ^ 31 ∧ v.toInt = -2 ^ 31 + 1)
  | _ => True

end

/-- The same of every call of a sequence, at the value that the named arithmetic has
reached. -/
def SumsSuffice : BitVec 32 → List Call → Prop
  | _, [] => True
  | x, call :: calls => call.SumSuffices x ∧ ∀ r, call.named x = some r → SumsSuffice r.1 calls

/-! ## The calls of one thread -/

section

variable {x val : BitVec 32} {op : Int} {rounds : Nat} {call : Call} {calls : List Call}

/-- With no other thread the first compare-and-swap succeeds. -/
theorem atomicIntOp_succ : atomicIntOp op val (rounds + 1) x =
    (newValue op val x).map fun new => (new, new) := by
  cases h : newValue op val x with
  | none => simp [atomicIntOp, h]
  | some new => simp [atomicIntOp, syncValCompareAndSwap, h]

/-- The same run as steps of a thread that no other one disturbs. -/
theorem atomicIntOp_path {o : Op} {result : BitVec 32 × BitVec 32}
    (h : atomicIntOp o.op o.val (rounds + 1) x = some result) :
    ∃ s : State (Fin 1) Op (BitVec 32), Path Step (.start x)
      [.call 0 o, .read 0, .compute 0, .swap 0 o result.2, .ret 0 o result.2] s ∧
        s.cell = result.1 := by
  rw [atomicIntOp_succ, Option.map_eq_some_iff] at h
  obtain ⟨new, hnew, rfl⟩ := h
  have h₀ : Path Step (.start x) ([] : List (Action (Fin 1) Op (BitVec 32))) (.start x) := .nil
  have h₁ := ((h₀.snoc (.call 0 o rfl)).snoc (.read 0 rfl)).snoc (.compute 0 rfl hnew)
  exact ⟨_, (h₁.snoc (.swap 0 rfl rfl)).snoc (.ret 0 rfl), rfl⟩

/-- A call is right where a sum suffices, and nowhere else. -/
theorem Call.exec_eq_iff {r : BitVec 32 × Option (BitVec 32)} (h : call.named x = some r) :
    call.exec (rounds + 1) x = some r ↔ call.SumSuffices x := by
  cases call with
  | init | get | set | add | inc | dec =>
    simpa [named, exec, SumSuffices, atomicIntInit, atomicIntGet, atomicIntSet, atomicIntAdd,
      atomicIntInc, atomicIntDec, atomicIntOp_succ, newValue] using h
  | sub v =>
    obtain rfl : (x - v, some (x - v)) = r := Option.some.inj h
    simp [exec, atomicIntSub, atomicIntOp_succ, newValue, SumSuffices, add_eq_sub_iff]
  | mul v =>
    obtain rfl : (x * v, some (x * v)) = r := Option.some.inj h
    simp [exec, atomicIntMul, atomicIntOp_succ, newValue, SumSuffices, add_eq_mul_iff]
  | div v =>
    simp only [named, Option.ite_none_left_eq_some, not_or] at h
    obtain ⟨⟨h0, hov⟩, hr⟩ := h
    obtain rfl : (x.sdiv v, some (x.sdiv v)) = r := Option.some.inj hr
    simp [exec, atomicIntDiv, atomicIntOp_succ, newValue, SumSuffices, add_eq_sdiv_iff h0 hov]
  | mod v =>
    simp only [named, Option.ite_none_left_eq_some, not_or] at h
    obtain ⟨⟨h0, -⟩, hr⟩ := h
    simpa [exec, atomicIntMod, atomicIntOp_succ, newValue, SumSuffices] using And.intro h0 hr

/-- A call that goes wrong returns the wrong value. -/
theorem Call.eq_of_returned {r r' : BitVec 32 × Option (BitVec 32)}
    (h : call.named x = some r) (h' : call.exec (rounds + 1) x = some r') (hret : r'.2 = r.2) :
    r' = r := by
  have hsame (a b : BitVec 32) (hr : (b, some b) = r) (hr' : (a, some a) = r') : r' = r := by
    subst hr hr'
    obtain rfl : a = b := Option.some.inj hret
    rfl
  cases call with
  | init | get | set =>
    obtain rfl := Option.some.inj h
    exact (Option.some.inj h').symm
  | add | sub | mul | inc | dec =>
    simp only [exec, atomicIntAdd, atomicIntSub, atomicIntMul, atomicIntInc, atomicIntDec,
      atomicIntOp_succ, newValue] at h'
    exact hsame _ _ (Option.some.inj h) (Option.some.inj h')
  | div v =>
    simp only [exec, atomicIntDiv, atomicIntOp_succ, newValue] at h'
    exact hsame _ _ (Option.some.inj (Option.ite_none_left_eq_some.mp h).2) (Option.some.inj h')
  | mod v =>
    rw [exec_eq_iff h |>.mpr trivial] at h'
    exact (Option.some.inj h').symm

/-- **The interface computes what its operations name exactly where sums suffice**: the
final value and everything the calls return, from any initial value. -/
theorem runCalls_eq_iff {result : BitVec 32 × List (Option (BitVec 32))}
    (h : runCalls (fun x call => call.named x) x calls = some result) :
    runCalls (fun x call => call.exec (rounds + 1) x) x calls = some result ↔
      SumsSuffice x calls := by
  induction calls generalizing x result with
  | nil => simpa [runCalls, SumsSuffice] using h
  | cons call calls ih =>
    simp only [runCalls, Option.bind_eq_bind, Option.bind_eq_some_iff] at h
    obtain ⟨r, hr, rest, hrest, hresult⟩ := h
    obtain rfl := Option.some.inj hresult
    have hcall : call.exec (rounds + 1) x = some r ↔ call.SumSuffices x := Call.exec_eq_iff hr
    simp only [SumsSuffice, hr, Option.some.injEq, forall_eq']
    rw [← hcall, ← ih hrest]
    constructor
    · intro hexec
      simp only [runCalls, Option.bind_eq_bind, Option.bind_eq_some_iff] at hexec
      obtain ⟨r', hr', rest', hrest', hresult'⟩ := hexec
      have heq := Option.some.inj hresult'
      simp only [Prod.mk.injEq, List.cons.injEq] at heq
      obtain rfl := Call.eq_of_returned hr hr' heq.2.1
      obtain rfl : rest' = rest := Prod.ext heq.1 heq.2.2
      exact ⟨hr', hrest'⟩
    · rintro ⟨hexec, hrun⟩
      simp [runCalls, hexec, hrun]

end

theorem runCalls_double :
    runCalls (fun x call => call.exec 1 x) 9 [.set 2, .mul 2, .sub 0, .get] =
        some (4, [none, some 4, some 4, some 4]) ↔
      SumsSuffice 9 [.set 2, .mul 2, .sub 0, .get] :=
  runCalls_eq_iff (by decide)

/-- Five less three is eight. -/
theorem subtraction_adds : ¬ ∀ (x : BitVec 32) (calls : List Call)
    (result : BitVec 32 × List (Option (BitVec 32))),
    runCalls (fun x call => call.named x) x calls = some result →
      ∃ rounds, runCalls (fun x call => call.exec rounds x) x calls = some result := by
  intro h
  obtain ⟨rounds, hrun⟩ := h 0 [.set 5, .sub 3, .get] (2, [none, some 2, some 2]) (by decide)
  cases rounds with
  | zero => simp [runCalls, Call.exec, atomicIntSub, atomicIntOp] at hrun
  | succ rounds =>
    simp [runCalls, Call.exec, atomicIntSub, atomicIntSet, atomicIntOp_succ, newValue] at hrun

end Chronos.Atomic
