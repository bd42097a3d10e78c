import Mathlib.Data.List.Find
import Chronos.Salloc.Coalesce

/-!
# The two searches

`_salloc` walks the free ring forwards and takes the first free block that is
big enough; `sfree` walks the `prev` fields backwards to the nearest free
block. Both come back to where they started after one round at most.
-/

namespace Chronos.Salloc

open Chronos.Lib Chronos.Lib.Ring

section Search

variable {s : Heap} {A : List Nat} {H : Typed} {p q bs : List Block} {b c : Block}
  {size steps : Nat}

/-- The search loop of `_salloc`, walking the free links from `curr`. -/
theorem Views.search (hv : Views s A H) {curr : Nat} {l : List Nat}
    (hsub : curr :: l ⊆ A) (hwalk : List.IsChain H.FreeLink (curr :: (l ++ [H.freeList])))
    (hend : H.freeList ∉ l) (hsteps : l.length < steps) :
    s.search size steps curr =
      .ok ((curr :: l).find? fun a => decide (size ≤ usableSizeOf (H.size a))) := by
  induction l generalizing curr steps with
  | nil =>
    obtain ⟨steps, rfl⟩ : ∃ k, steps = k + 1 := ⟨steps - 1, by simp at hsteps; omega⟩
    have hcurr : curr ∈ A := hsub List.mem_cons_self
    have hlink : H.field curr .nextFree = H.freeList := (by simpa using hwalk : H.FreeLink _ _).1
    unfold Heap.search Heap.usableSize
    by_cases hfit : size ≤ usableSizeOf (H.size curr)
    · simp [hv.size hcurr, hfit, bind, Except.bind, pure, Except.pure]
    · simp [hv.size hcurr, hv.load hcurr, hlink, hv.freeList, hfit, bind, Except.bind, pure,
        Except.pure]
  | cons c l ih =>
    obtain ⟨steps, rfl⟩ : ∃ k, steps = k + 1 := ⟨steps - 1, by simp at hsteps; omega⟩
    have hcurr : curr ∈ A := hsub List.mem_cons_self
    rw [List.cons_append, List.isChain_cons_cons] at hwalk
    have hc : c ≠ H.freeList := fun e => hend (by simp [e])
    have hlen : l.length < steps := by simpa using hsteps
    have hrest := ih (fun a ha => hsub (List.mem_cons_of_mem _ ha)) hwalk.2
      (fun hm => hend (List.mem_cons_of_mem _ hm)) hlen
    unfold Heap.search Heap.usableSize
    by_cases hfit : size ≤ usableSizeOf (H.size curr)
    · simp [hv.size hcurr, hfit, bind, Except.bind, pure, Except.pure]
    · simp only [hv.size hcurr, hv.load hcurr, hwalk.1.1, hv.freeList, hc, hfit, hrest, bind,
        Except.bind, pure, Except.pure, if_false]
      rw [List.find?_cons_of_neg (a := curr) (by simpa using hfit)]

/-- The search loop of `sfree`, walking the `prev` fields from `curr`. -/
theorem Views.searchBack (hv : Views s A H) {node curr : Nat} {l : List Nat}
    (hsub : curr :: l ⊆ A)
    (hwalk : List.IsChain (fun x y => H.field x .prev = y) (curr :: (l ++ [node])))
    (hend : node ∉ l) (hsteps : l.length < steps) :
    s.searchBack node steps curr =
      .ok (((curr :: l).find? fun a => decide (H.free a = 1)).getD node) := by
  induction l generalizing curr steps with
  | nil =>
    obtain ⟨steps, rfl⟩ : ∃ k, steps = k + 1 := ⟨steps - 1, by simp at hsteps; omega⟩
    have hcurr : curr ∈ A := hsub List.mem_cons_self
    have hlink : H.field curr .prev = node := by simpa using hwalk
    unfold Heap.searchBack
    by_cases hfree : H.free curr = 1
    · simp [hv.free hcurr, hfree, bind, Except.bind, pure, Except.pure]
    · simp [hv.free hcurr, hv.load hcurr, hlink, hfree, bind, Except.bind, pure, Except.pure]
  | cons c l ih =>
    obtain ⟨steps, rfl⟩ : ∃ k, steps = k + 1 := ⟨steps - 1, by simp at hsteps; omega⟩
    have hcurr : curr ∈ A := hsub List.mem_cons_self
    rw [List.cons_append, List.isChain_cons_cons] at hwalk
    have hc : c ≠ node := fun e => hend (by simp [e])
    have hlen : l.length < steps := by simpa using hsteps
    have hrest := ih (fun a ha => hsub (List.mem_cons_of_mem _ ha)) hwalk.2
      (fun hm => hend (List.mem_cons_of_mem _ hm)) hlen
    unfold Heap.searchBack
    by_cases hfree : H.free curr = 1
    · simp [hv.free hcurr, hfree, bind, Except.bind, pure, Except.pure]
    · simp only [hv.free hcurr, hv.load hcurr, hwalk.1, hc, hfree, hrest, bind, Except.bind, pure,
        Except.pure, if_false]
      rw [List.find?_cons_of_neg (a := curr) (by simpa using hfree)]

/-- The free blocks, in address order. -/
def freeBlocks (bs : List Block) : List Block := bs.filter (·.free)

theorem addrs_freeBlocks : addrs (freeBlocks bs) = freeAddrs bs := rfl

theorem mem_freeBlocks : b ∈ freeBlocks bs ↔ b ∈ bs ∧ b.free = true := List.mem_filter

theorem freeBlocks_length_le : (freeBlocks bs).length ≤ bs.length := List.length_filter_le ..

/-- `free_list` is one of the free blocks, or null when there is none. -/
theorem Formed.current (h : Formed s bs) :
    (s.freeList = 0 ∧ freeBlocks bs = []) ∨
      ∃ p c q, freeBlocks bs = p ++ c :: q ∧ c.addr = s.freeList := by
  rcases h.frees.freeList with ⟨hnil, h0⟩ | hmem
  · exact Or.inl ⟨h0, List.map_eq_nil_iff.mp hnil⟩
  · rw [← addrs_freeBlocks] at hmem
    obtain ⟨c, hc, hca⟩ := mem_addrs.mp hmem
    obtain ⟨p, q, hpq⟩ := List.append_of_mem hc
    exact Or.inr ⟨p, c, q, hpq, hca⟩

theorem Formed.freeList_eq_zero (h : Formed s bs) (hfree : freeAddrs bs = []) : s.freeList = 0 := by
  rcases h.frees.freeList with ⟨-, h0⟩ | hmem
  · exact h0
  · rw [hfree] at hmem
    cases hmem

/-- **First fit.** The search visits the free blocks in ring order from
`free_list` and stops at the first that is big enough. -/
theorem Formed.search (h : Formed s bs) {p q : List Block} (hfree : freeBlocks bs = p ++ c :: q)
    (hc : c.addr = s.freeList) (hsteps : (freeBlocks bs).length ≤ steps) :
    s.search size steps s.freeList =
      .ok (((c :: (q ++ p)).find? fun b => decide (size ≤ usableSizeOf b.size)).map Block.addr) := by
  have hmem : ∀ b ∈ c :: (q ++ p), b ∈ bs := by
    intro b hb
    have : b ∈ freeBlocks bs := by
      rw [hfree]
      simp only [List.mem_append, List.mem_cons] at hb ⊢
      tauto
    exact (mem_freeBlocks.mp this).1
  have hfrees : FreeShape s.typed (s.freeList :: addrs (q ++ p)) := by
    have hf := h.frees
    rw [← addrs_freeBlocks, hfree, addrs_append] at hf
    simpa [hc] using hf.append_comm
  have hring := hfrees.ring
  rw [chain_cons] at hring
  have hfind : ((s.freeList :: addrs (q ++ p)).find? fun a =>
        decide (size ≤ usableSizeOf (s.typed.size a))) =
      ((c :: (q ++ p)).find? fun b => decide (size ≤ usableSizeOf b.size)).map Block.addr := by
    rw [← hc, ← addrs_cons, addrs, List.find?_map]
    refine congrArg (Option.map Block.addr) (List.find?_congr fun b hb => ?_)
    rw [Function.comp_apply, h.blocks.size_eq (hmem b hb)]
  rw [← hfind]
  refine h.views.search ?_ hring (List.nodup_cons.mp hfrees.nodup).1 ?_
  · intro a ha
    rw [← hc, ← addrs_cons] at ha
    obtain ⟨b, hb, rfl⟩ := mem_addrs.mp ha
    exact addr_mem_addrs (hmem b hb)
  · have : (p ++ c :: q).length ≤ steps := hfree ▸ hsteps
    simp [addrs] at this ⊢
    omega

/-- The first free block of a backward walk is the last in address order. -/
theorem find?_reverse_free {l : List Block} (x : Nat)
    (hfree : ∀ b ∈ l, H.free b.addr = b.free.toNat) :
    ((addrs l).reverse.find? fun a => decide (H.free a = 1)).getD x =
      (freeAddrs l).getLastD x := by
  have hflag : l.reverse.find? ((fun a => decide (H.free a = 1)) ∘ Block.addr) =
      l.reverse.find? (·.free) := by
    refine List.find?_congr fun b hb => ?_
    rw [Function.comp_apply, hfree b (List.mem_reverse.mp hb)]
    simp only [toNat_eq_one_iff, Bool.decide_eq_true]
  rw [addrs, ← List.map_reverse, List.find?_map, hflag, ← List.head?_filter, List.filter_reverse,
    List.head?_reverse, freeAddrs, addrs, List.getLastD_eq_getLast?, List.getLast?_map]

/-- The search of `sfree` finds the nearest free block before the released one,
going round the heap. -/
theorem Formed.searchBack (h : Formed s (p ++ b :: q)) (hb : b.free = false)
    (hsteps : (p ++ b :: q).length ≤ steps) :
    s.searchBack b.addr steps (s.typed.field b.addr .prev) =
      .ok ((freeAddrs (q ++ p)).getLastD b.addr) := by
  have hring : List.IsChain s.typed.BlockLink (b.addr :: (addrs (q ++ p) ++ [b.addr])) := by
    have hr := h.blocks.ring
    rw [addrs_append, chain_append_comm, addrs_cons, List.cons_append, ← addrs_append,
      chain_cons] at hr
    exact hr
  -- read backwards, the ring is the walk of the loop
  have hback : List.IsChain (fun x y => s.typed.field x .prev = y)
      (b.addr :: ((addrs (q ++ p)).reverse ++ [b.addr])) := by
    have hrev := List.isChain_reverse (R := fun x y => s.typed.field x .prev = y) |>.mpr
      (hring.imp fun x y hxy => hxy.2)
    simpa using hrev
  have hfree : ∀ c ∈ q ++ p, s.typed.free c.addr = c.free.toNat := by
    intro c hc
    apply h.blocks.free_eq
    simp only [List.mem_append, List.mem_cons] at hc ⊢
    tauto
  have hbm : b ∈ p ++ b :: q := by simp
  have hnot : b.addr ∉ addrs (q ++ p) := by
    have hnodup := h.blocks.nodup
    rw [addrs_append, List.nodup_append_comm, addrs_cons, List.cons_append, ← addrs_append] at hnodup
    exact (List.nodup_cons.mp hnodup).1
  rw [← find?_reverse_free b.addr hfree]
  have hlen : (addrs (q ++ p)).reverse.length < steps := by
    simp [addrs] at hsteps ⊢
    omega
  have hsub : (addrs (q ++ p)).reverse ⊆ addrs (p ++ b :: q) := by
    intro a ha
    simp only [addrs_append, addrs_cons, List.mem_reverse, List.mem_append, List.mem_cons] at ha ⊢
    tauto
  rw [← List.mem_reverse] at hnot
  generalize (addrs (q ++ p)).reverse = l at *
  cases l with
  | nil =>
    -- the only block of the heap is its own predecessor
    have hself : s.typed.field b.addr .prev = b.addr := by simpa using hback
    rw [hself, h.views.searchBack (l := []) ?_ hback (by simp) hlen]
    · simp [h.blocks.free_eq hbm, hb]
    · simp
  | cons c l =>
    rw [List.cons_append, List.isChain_cons_cons] at hback
    rw [hback.1]
    refine h.views.searchBack hsub hback.2 (fun hm => hnot (List.mem_cons_of_mem _ hm)) ?_
    simp at hlen
    omega

end Search

end Chronos.Salloc
