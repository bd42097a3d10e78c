import Chronos.Salloc.Run

/-!
# Calls that cannot map memory

`init_salloc` assigns `head` before it looks at what `mmap` has answered. An allocator
that has a `head` keeps its state when a mapping fails; the first call does not.
-/

namespace Chronos.Salloc

open Chronos.Lib

namespace Heap

/-- The call makes an `mmap` that fails: the first mapping, or the extension when no free
region is big enough. -/
def FailsToMap (s : Heap) (os : Os) (steps n : Nat) : Prop :=
  (s.head = 0 ∧ os.first = none) ∨
    ∃ s₁, s.ready os = .ok (s₁, 0) ∧ s₁.firstFit steps (alignRequest n) = .ok none ∧
      os.canExtend = false

/-- The failed call might as well not have been made. -/
def Untouched (s s' : Heap) : Prop :=
  s'.head = s.head ∧ s'.totalSize = s.totalSize ∧ s'.freeList = s.freeList ∧ s'.mem = s.mem ∧
    ∀ os steps n, s'.salloc os steps n = s.salloc os steps n

variable {s s₀ : Heap} {os : Os} {steps n : Nat}

theorem Untouched.refl (s : Heap) : s.Untouched s := ⟨rfl, rfl, rfl, rfl, fun _ _ _ => rfl⟩

/-- A heap that is ready, but has no room and cannot be extended, is left as it is. -/
theorem salloc_of_refused (hready : s.ready os = .ok (s₀, 0))
    (hfit : s₀.firstFit steps (alignRequest n) = .ok none) (hos : os.canExtend = false) :
    s.salloc os steps n = .ok (s₀, 0) := by
  have hgrow : s₀.increaseHeapSize os = .ok (s₀, -1) := by
    unfold increaseHeapSize
    rw [hos]
    rfl
  unfold salloc _salloc attempt
  rw [hready, bind_ok]
  simp only [ne_eq, not_true_eq_false, if_false, hfit, hgrow, bind_ok]
  rfl

theorem ready_of_head (h : s.head ≠ 0) : s.ready os = .ok (s, 0) := if_neg h

theorem ready_of_refused (h : s.head = 0) (hos : os.first = none) :
    s.ready os = .ok ({ s with head := mapFailed }, -1) := by
  rw [ready, if_pos h, initSalloc, hos]
  rfl

/-- A heap that has become ready has a `head`. -/
theorem head_of_ready (h : s.head = 0) (hready : s.ready os = .ok (s₀, 0)) : s₀.head ≠ 0 := by
  obtain ⟨first, canExtend⟩ := os
  cases first with
  | none =>
    rw [ready_of_refused h rfl] at hready
    simp at hready
  | some region =>
    obtain ⟨s', hs', hhead, -, -⟩ := s.initSalloc_spec region canExtend
    rw [ready, if_pos h, hs'] at hready
    obtain rfl : s' = s₀ := congrArg Prod.fst (Except.ok.inj hready)
    rw [hhead]
    exact Nat.pos_iff_ne_zero.mp region.pos

/-- **A failed call leaves the allocator as it was exactly when** the allocator has been
initialised before. It returns a null pointer in any case. -/
theorem salloc_failed_iff (h : s.FailsToMap os steps n) :
    ∃ s', s.salloc os steps n = .ok (s', 0) ∧ (s.Untouched s' ↔ s.head ≠ 0) := by
  by_cases hhead : s.head = 0
  · have hchanged {s' : Heap} (h' : s'.head ≠ 0) : s.Untouched s' ↔ s.head ≠ 0 := by
      refine ⟨fun hsame => ?_, fun hne => absurd hhead hne⟩
      rwa [← hsame.1]
    rcases h with ⟨-, hfirst⟩ | ⟨s₁, hready, hfit, hos⟩
    · exact ⟨_, salloc_of_failed (ready_of_refused hhead hfirst),
        hchanged (show mapFailed ≠ 0 by decide)⟩
    · exact ⟨s₁, salloc_of_refused hready hfit hos, hchanged (head_of_ready hhead hready)⟩
  · rcases h with ⟨h0, -⟩ | ⟨s₁, hready, hfit, hos⟩
    · exact absurd h0 hhead
    · rw [ready_of_head hhead] at hready
      obtain rfl : s = s₁ := congrArg Prod.fst (Except.ok.inj hready)
      exact ⟨s, salloc_of_refused (ready_of_head hhead) hfit hos, fun _ => hhead,
        fun _ => .refl s⟩

/-- Where the first mapping has failed there is no later one: unless the memory behind
`MAP_FAILED` could be mapped, no call returns a block. -/
theorem salloc_mapFailed (hlist : s.freeList = 0) (hos : os.canExtend = false) :
    { s with head := mapFailed }.salloc os steps n = .ok ({ s with head := mapFailed }, 0) :=
  salloc_of_refused (ready_of_head (by decide : mapFailed ≠ 0)) (if_pos hlist) hos

/-- The system refuses every mapping. -/
def refused : Os := ⟨none, false⟩

/-- The first call of all, and one that finds no room behind three blocks in use. -/
theorem salloc_failed_first :
    (∃ s', (Config.start .empty).heap.salloc refused allocSize 16 = .ok (s', 0) ∧
      ¬(Config.start .empty).heap.Untouched s') ∧
    ∃ s', Config.threeInUse.heap.salloc refused allocSize allocSize = .ok (s', 0) ∧
      Config.threeInUse.heap.Untouched s' := by
  constructor
  · obtain ⟨s', hs', hiff⟩ := salloc_failed_iff (s := (Config.start .empty).heap)
      (n := 16) (.inl ⟨rfl, (rfl : refused.first = none)⟩)
    exact ⟨s', hs', fun hsame => hiff.mp hsame rfl⟩
  · have hhead : Config.threeInUse.heap.head ≠ 0 := by decide +kernel
    have hfit : Config.threeInUse.heap.firstFit allocSize (alignRequest allocSize) = .ok none := by
      decide +kernel
    obtain ⟨s', hs', hiff⟩ := salloc_failed_iff
      (.inr ⟨_, ready_of_head hhead, hfit, (rfl : refused.canExtend = false)⟩)
    exact ⟨s', hs', hiff.mpr hhead⟩

/-- The first call of all leaves `MAP_FAILED` in `head`. -/
theorem salloc_failed_changes : ¬ ∀ (s : Heap) (os : Os) (steps n : Nat),
    s.FailsToMap os steps n → ∃ s', s.salloc os steps n = .ok (s', 0) ∧ s.Untouched s' := by
  intro h
  obtain ⟨s', hs', hsame⟩ := h (Config.start .empty).heap refused 0 16 (.inl ⟨rfl, rfl⟩)
  rw [salloc_of_failed (ready_of_refused rfl rfl)] at hs'
  obtain rfl := congrArg Prod.fst (Except.ok.inj hs')
  exact absurd hsame.1 (show mapFailed ≠ 0 by decide)

end Heap

end Chronos.Salloc
