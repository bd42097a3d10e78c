import Mathlib.Tactic.NormNum
import Mathlib.Tactic.NormNum.Prime
import Chronos.Lib.Register

/-!
# The random numbers of the workloads

The shift registers of `random.h`. A step is linear, and it moves a bit down until that
is the lowest one; so whether a period is maximal shows in a few iterates of one state.
-/

namespace Chronos.Work

open Function Lib

abbrev LSFR_TAPS_64 : BitVec 64 := 0xd800000000000000#64
abbrev LSFR_TAPS_32 : BitVec 32 := 0x80200003#32

variable {w : Nat}

def lfsrNext (taps lfsr : BitVec w) : BitVec w := (lfsr >>> 1) ^^^ (-(lfsr &&& 1#w) &&& taps)

/-- `lfsrandom64`: the number returned, which is also the state left behind. -/
def lfsrandom64 (r : BitVec 64) : BitVec 64 := lfsrNext LSFR_TAPS_64 r

/-- `lfsrandom32`, likewise -/
def lfsrandom32 (r : BitVec 32) : BitVec 32 := lfsrNext LSFR_TAPS_32 r

/-! ## A step -/

/-- The negated lowest bit selects the taps. -/
theorem lfsrNext_eq (taps lfsr : BitVec w) :
    lfsrNext taps lfsr = (lfsr >>> 1) ^^^ (bif lfsr.getLsbD 0 then taps else 0#w) := by
  rcases w with - | w
  · exact Subsingleton.elim _ _
  have hand : lfsr &&& 1#(w + 1) = (bif lfsr.getLsbD 0 then 1#(w + 1) else 0#(w + 1)) := by
    apply BitVec.eq_of_getLsbD_eq
    intro i hi
    cases h : lfsr.getLsbD 0 <;> rcases i with - | i <;> simp_all
  unfold lfsrNext
  rw [hand]
  cases lfsr.getLsbD 0
  · simp
  · simp [BitVec.neg_one_eq_allOnes]

theorem isLinear_lfsrNext (taps : BitVec w) : IsLinear (lfsrNext taps) := by
  intro a b
  simp only [lfsrNext_eq, BitVec.getLsbD_xor]
  apply BitVec.eq_of_getLsbD_eq
  intro i hi
  cases a.getLsbD 0 <;> cases b.getLsbD 0 <;> simp
  all_goals grind

theorem movesDown_lfsrNext (taps : BitVec w) : MovesDown (lfsrNext taps) := by
  intro j hj
  have hlow : (BitVec.twoPow w (j + 1)).getLsbD 0 = false := by simp [BitVec.getLsbD_twoPow]
  rw [lfsrNext_eq, hlow, cond_false, BitVec.xor_zero]
  apply BitVec.eq_of_getLsbD_eq
  intro i hi
  simp [BitVec.getLsbD_twoPow]
  grind

/-! ## The two registers -/

/-- `2 ^ 32 - 1` is a product of Fermat primes. -/
theorem primitive_lfsrandom32 : Primitive lfsrandom32 := by
  refine .of_primes (isLinear_lfsrNext _) (movesDown_lfsrNext _) ?_ [3, 5, 17, 257, 65537] ?_ ?_ ?_
  · decide +kernel
  · simp only [List.forall_mem_cons]
    norm_num
  · norm_num
  · decide +kernel

theorem primitive_lfsrandom64 : Primitive lfsrandom64 := by
  refine .of_primes (isLinear_lfsrNext _) (movesDown_lfsrNext _) ?_
    [3, 5, 17, 257, 641, 65537, 6700417] ?_ ?_ ?_
  · decide +kernel
  · simp only [List.forall_mem_cons]
    norm_num
  · norm_num
  · decide +kernel

/-- `n` is how many steps of `f` it takes from `x` back to `x` for the first time. -/
def FirstReturn {α : Type} (f : α → α) (x : α) (n : Nat) : Prop :=
  f^[n] x = x ∧ 0 < n ∧ ∀ k, 0 < k → k < n → f^[k] x ≠ x

theorem Primitive.firstReturn {f : BitVec w → BitVec w} (h : Primitive f) (hw : 0 < w)
    {x : BitVec w} (hx : x ≠ 0#w) : FirstReturn f x (2 ^ w - 1) := by
  have hperiod := h.minimalPeriod_eq hw hx
  refine ⟨?_, Primitive.two_pow_sub_one_pos hw, ?_⟩
  · rw [← hperiod]
    exact iterate_minimalPeriod
  · intro k hk hlt
    exact not_isPeriodicPt_of_pos_of_lt_minimalPeriod hk.ne' (hperiod ▸ hlt)

/-- **The shift registers have maximal periods**, from every state but zero. -/
theorem lfsrandom_maximal :
    (∀ r : BitVec 32, r ≠ 0 →
      (∀ k, lfsrandom32^[k] r ≠ 0) ∧
        (∀ s : BitVec 32, s ≠ 0 → ∃ k < 2 ^ 32 - 1, lfsrandom32^[k] r = s) ∧
        FirstReturn lfsrandom32 r (2 ^ 32 - 1)) ∧
      ∀ r : BitVec 64, r ≠ 0 → FirstReturn lfsrandom64 r (2 ^ 64 - 1) := by
  constructor
  · intro r hr
    exact ⟨primitive_lfsrandom32.iterate_ne_zero (by norm_num) hr,
      fun s hs => primitive_lfsrandom32.exists_iterate (by norm_num) hr hs,
      Primitive.firstReturn primitive_lfsrandom32 (by norm_num) hr⟩
  · intro r hr
    exact Primitive.firstReturn primitive_lfsrandom64 (by norm_num) hr

theorem lfsrandom_maximal_one : FirstReturn lfsrandom32 1 (2 ^ 32 - 1) ∧
    FirstReturn lfsrandom64 1 (2 ^ 64 - 1) :=
  ⟨(lfsrandom_maximal.1 1 (by decide)).2.2, lfsrandom_maximal.2 1 (by decide)⟩

end Chronos.Work
