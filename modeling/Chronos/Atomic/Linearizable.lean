import Chronos.Atomic.Defs

/-!
# Concurrent calls

However the threads interleave, the calls of `atomic_int_op` take effect one after the
other, in the order of their successful compare-and-swaps.
-/

namespace Chronos.Atomic

open Lib Lib.Cas

/-- `atomic_int_inc` -/
def increment : Op := ⟨AINT_ADD, 1⟩

theorem iterate_add_one (c : BitVec 32) (n : Nat) : (· + 1)^[n] c = c + BitVec.ofNat 32 n := by
  induction n with
  | zero => simp
  | succ n ih =>
    rw [Function.iterate_succ_apply', ih, BitVec.ofNat_add, BitVec.add_assoc]
    rfl

section

variable {ι : Type*} [DecidableEq ι] {c : BitVec 32} {as : List (Action ι Op (BitVec 32))}
  {s : State ι Op (BitVec 32)}

/-- Increments raise the integer by their number. -/
theorem cell_of_increments (h : Linearizable Op.apply c as s) (hidle : ∀ i, s.pc i = .idle)
    (hinc : ∀ d ∈ returns as, d.op = increment) :
    s.cell = c + BitVec.ofNat 32 (returns as).length := by
  have hperm := h.perm hidle
  have hops : ∀ op ∈ (swaps as).map Done.op, ∀ v, op.apply v = some (v + 1) := by
    intro op hop v
    obtain ⟨d, hd, rfl⟩ := List.mem_map.mp hop
    rw [hinc d (hperm.symm.subset hd)]
    rfl
  rw [h.cell, getLastD_of_results hops h.sequential, iterate_add_one, List.length_map,
    hperm.length_eq]

/-- **`atomic_int_op` is linearizable**, for any number of threads. When no call is under
way, the calls that have returned are those that have stored, and if all of them are
increments the integer has gone up by their number. -/
theorem atomicIntOp_linearizable (h : Path Step (.start c) as s) :
    Linearizable Op.apply c as s ∧
      ((∀ i, s.pc i = .idle) → (returns as).Perm (swaps as) ∧
        ((∀ d ∈ returns as, d.op = increment) →
          s.cell = c + BitVec.ofNat 32 (returns as).length)) := by
  have hlin := linearizable h
  exact ⟨hlin, fun hidle => ⟨hlin.perm hidle, cell_of_increments hlin hidle⟩⟩

end

/-! ## A call that is overtaken -/

/-- The first thread reads the integer, the second one increments it before the first
one comes to its compare-and-swap. -/
def overtaken : List (Action (Fin 2) Op (BitVec 32)) :=
  [.call 0 increment, .read 0, .compute 0,
    .call 1 increment, .read 1, .compute 1, .swap 1 increment 6, .ret 1 increment 6,
    .retry 0, .read 0, .compute 0, .swap 0 increment 7, .ret 0 increment 7]

theorem path_overtaken : ∃ s, Path Step (.start 5) overtaken s ∧ s.cell = 7 := by
  have h₀ : Path Step (.start 5) ([] : List (Action (Fin 2) Op (BitVec 32))) (.start 5) := .nil
  have h₁ := ((h₀.snoc (.call 0 increment rfl)).snoc (.read 0 rfl)).snoc (.compute 0 rfl rfl)
  have h₂ := ((((h₁.snoc (.call 1 increment rfl)).snoc (.read 1 rfl)).snoc
    (.compute 1 rfl rfl)).snoc (.swap 1 rfl rfl)).snoc (.ret 1 rfl)
  have h₃ := ((((h₂.snoc (.retry 0 rfl (by decide))).snoc (.read 0 rfl)).snoc
    (.compute 0 rfl rfl)).snoc (.swap 0 rfl rfl)).snoc (.ret 0 rfl)
  exact ⟨_, h₃, rfl⟩

theorem linearizable_overtaken : ∃ s : State (Fin 2) Op (BitVec 32), s.cell = 7 ∧
    Linearizable Op.apply 5 overtaken s ∧
      ((∀ i, s.pc i = .idle) → (returns overtaken).Perm (swaps overtaken) ∧
        ((∀ d ∈ returns overtaken, d.op = increment) →
          s.cell = 5 + BitVec.ofNat 32 (returns overtaken).length)) := by
  obtain ⟨s, hpath, hcell⟩ := path_overtaken
  exact ⟨s, hcell, atomicIntOp_linearizable hpath⟩

end Chronos.Atomic
