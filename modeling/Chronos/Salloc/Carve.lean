import Chronos.Salloc.Restore
import Chronos.Salloc.Run

/-!
# Carving up the first region

As long as nothing has been released, a request takes its block off the front of
the one free block, and there are no others. When everything has been released,
the heap is again as `init_salloc` has made it.
-/

namespace Chronos.Salloc

open Chronos.Lib

/-- The bytes a request of `n` takes up, with the header. -/
def blockSize (n : Nat) : Nat := alignRequest n + regionOffset

/-- The bytes that requests take up. -/
def roomFor (ns : List Nat) : Nat := (ns.map blockSize).sum

@[simp] theorem roomFor_nil : roomFor [] = 0 := rfl

@[simp] theorem roomFor_cons (n : Nat) (ns : List Nat) :
    roomFor (n :: ns) = blockSize n + roomFor ns := List.sum_cons

theorem roomFor_append (ns ns' : List Nat) : roomFor (ns ++ ns') = roomFor ns + roomFor ns' := by
  simp [roomFor]

/-- **The heap before the first release**: the allocations, the last one first, are
the blocks `us`, and the block `rest` behind them is free. -/
structure Carved (c : Config) (us : List Block) (rest : Block) : Prop where
  wellFormed : WellFormed c.heap (us ++ [rest])
  total : c.heap.totalSize = allocSize
  free : rest.free = true
  inUse : ∀ b ∈ us, b.free = false
  blocks : us.reverse.map (fun b => (regionStart b.addr, b.size)) =
    c.live.map fun a => (a.ptr, blockSize a.bytes)

namespace Carved

variable {c : Config} {s s₀ : Heap} {live : List Allocation} {us : List Block} {rest : Block}
  {a : Allocation} {os : Os} {steps n : Nat}

theorem used_eq (h : Carved c us rest) : used (us ++ [rest]) = us := by
  rw [used_append, used_cons_free h.free]
  simpa [used] using h.inUse

theorem ptrs (h : Carved c us rest) :
    us.reverse.map (fun b => regionStart b.addr) = c.live.map Allocation.ptr := by
  have := congrArg (List.map Prod.fst) h.blocks
  simpa [Function.comp_def] using this

/-- The free block is what the requests have left. -/
theorem rest_size (h : Carved c us rest) :
    rest.size + roomFor (c.live.map Allocation.bytes) = allocSize := by
  have hsum := h.wellFormed.blocks.tiles.add_sum
  have hsizes := congrArg (List.map Prod.snd) h.blocks
  simp only [List.map_map, Function.comp_def] at hsizes
  have hroom : (us.map Block.size).sum = roomFor (c.live.map Allocation.bytes) := by
    rw [roomFor, List.map_map, Function.comp_def, ← hsizes, List.map_reverse, List.sum_reverse]
  have htotal := h.total
  simp only [List.map_append, List.map_singleton, List.sum_append, List.sum_singleton,
    Heap.typed_totalSize, Heap.typed_head] at hsum
  omega

/-- An allocation has the whole of its block behind the header. -/
theorem inPayload (h : Carved c us rest) (ha : a ∈ c.live) {x : Nat} (hlo : a.ptr ≤ x)
    (hhi : x < a.ptr + alignRequest a.bytes) : InPayload (us ++ [rest]) x := by
  have hmem : (a.ptr, blockSize a.bytes) ∈ c.live.map fun a => (a.ptr, blockSize a.bytes) :=
    List.mem_map_of_mem ha
  rw [← h.blocks] at hmem
  obtain ⟨b, hb, hba⟩ := List.mem_map.mp hmem
  simp only [Prod.mk.injEq, regionStart, blockSize] at hba
  refine ⟨b, by rwa [h.used_eq, ← List.mem_reverse], ?_⟩
  unfold regionStart
  omega

theorem held (h : Carved c us rest)
    (hwrap : ∀ a ∈ c.live, a.bytes + a.bytes % smallestRegion < 2 ^ 64) :
    c.Held (us ++ [rest]) where
  wellFormed := h.wellFormed
  total := h.total.le
  live := by
    rw [h.used_eq, ← h.ptrs, List.map_reverse]
    exact List.reverse_perm _
  room a ha b hb hba := by
    have hmem : (a.ptr, blockSize a.bytes) ∈ c.live.map fun a => (a.ptr, blockSize a.bytes) :=
      List.mem_map_of_mem ha
    rw [← h.blocks] at hmem
    obtain ⟨d, hd, hda⟩ := List.mem_map.mp hmem
    simp only [Prod.mk.injEq, regionStart, blockSize] at hda
    have hdb : d = b := by
      refine h.wellFormed.blocks.tiles.eq_of_start ?_ (mem_used.mp hb).1 (fun e _ => e.size_pos) ?_
      · exact List.mem_append_left _ (List.mem_reverse.mp hd)
      · unfold regionStart at hba
        omega
    have := le_alignRequest (hwrap a ha)
    subst hdb
    omega

/-- **A request is served** from the free block when that has the room, and another
header, to spare. -/
theorem salloc (h : Carved ⟨s₀, live⟩ us rest) (hready : s.ready os = .ok (s₀, 0))
    (hsteps : allocSize ≤ steps) (hwrap : n + n % smallestRegion < 2 ^ 64)
    (hroom : roomFor (n :: live.map Allocation.bytes) + sizeofSallocT ≤ allocSize) :
    ∃ s' ptr us' rest', s.salloc os steps n = .ok (s', ptr) ∧ ptr ≠ 0 ∧ SameRegion s₀ s' ∧
      Carved ⟨s', ⟨ptr, n⟩ :: live⟩ us' rest' := by
  have hwf : WellFormed s₀ (us ++ [rest]) := h.wellFormed
  have hrest : rest ∈ us ++ [rest] := by simp
  have hsize := h.rest_size
  simp only [roomFor_cons, blockSize] at hroom hsize
  have heven := rest.even
  have hreq := alignRequest_even hwrap
  have hmin := smallestRegion_le_alignRequest hwrap
  have hoff : regionOffset = 16 := rfl
  have hhdr : sizeofSallocT = 32 := rfl
  have hsmall := smallestRegion_eq
  have hlen : (us ++ [rest]).length ≤ steps := by
    have htiles := hwf.blocks.tiles.length_le fun b _ => b.size_pos
    have htotal : s₀.typed.totalSize = allocSize := h.total
    omega
  have husable : usableSizeOf rest.size = rest.size - regionOffset :=
    sizeSub_eq_sub (by omega) (hwf.size_lt hrest)
  rcases hwf.firstFit hlen (alignRequest n) with ⟨b, hb, hbf, -, hfirst⟩ | ⟨-, hnone⟩
  · have hbr : b = rest := by
      rcases List.mem_append.mp hb with hb | hb
      · rw [h.inUse b hb] at hbf
        cases hbf
      · exact List.mem_singleton.mp hb
    subst hbr
    obtain ⟨t, ht⟩ : ∃ t, t = b.size - regionOffset - alignRequest n := ⟨_, rfl⟩
    have hteven : t % 2 = 0 := by omega
    have hfit : sizeofSallocT ≤ t := by omega
    have hle : t + sizeofSallocT ≤ b.size := by omega
    have hcut : alignRequest n + regionOffset + t = b.size := by omega
    obtain ⟨s', htake, hr, hformed⟩ := hwf.toFormed.take_split (q := []) h.free hteven hfit hle hcut
    refine ⟨s', regionStart b.addr, us ++ [b.low t hteven hle], b.high t hteven hfit,
      (Heap.salloc_of_fit hready hfirst).trans htake, ?_, hr, ?_⟩
    · unfold regionStart
      omega
    · refine ⟨⟨?_, ?_⟩, hr.totalSize.trans h.total, Block.high_free, ?_, ?_⟩
      · simpa using hformed
      · rw [List.append_assoc, List.singleton_append]
        exact hwf.noAdjacent.left.append_cons_used
          (NoAdjacentFree.cons_used (List.IsChain.singleton _) Block.low_free) Block.low_free
      · exact List.forall_mem_append.mpr ⟨h.inUse, List.forall_mem_singleton.mpr Block.low_free⟩
      · have hlow : b.size - t = blockSize n := by
          unfold blockSize
          omega
        simp [h.blocks, hlow]
  · have := hnone rest hrest h.free
    omega

/-- What is stored in payloads keeps the shape. -/
theorem of_payload (h : Carved ⟨s, live⟩ us rest) {mem : Memory}
    (hwf : WellFormed { s with mem } (us ++ [rest])) : Carved ⟨{ s with mem }, live⟩ us rest :=
  ⟨hwf, h.total, h.free, h.inUse, h.blocks⟩

end Carved

/-! ## The start and the end -/

/-- The heap as `init_salloc` leaves it: one free block at `head` that spans the
region, all its links pointing to itself. -/
structure Heap.Initial (s : Heap) (region : Region) : Prop where
  head : s.head = region.base
  totalSize : s.totalSize = allocSize
  freeList : s.freeList = s.head
  size : s.size s.head = .ok s.totalSize
  free : s.free s.head = .ok 1
  prev : s.load s.head .prev = .ok s.head
  nextFree : s.load s.head .nextFree = .ok s.head
  prevFree : s.load s.head .prevFree = .ok s.head

section Initial

variable {s : Heap} {bs : List Block} {region : Region}

/-- **A heap without a block in use is as `init_salloc` leaves it.** -/
theorem WellFormed.initial (h : WellFormed s bs) (hnone : used bs = [])
    (hhead : s.head = region.base) (htotal : s.totalSize = allocSize) : s.Initial region := by
  obtain ⟨hlist, hsize, hfree, hprev, hnext, hback⟩ := h.whole hnone (htotal ▸ by decide)
  exact ⟨hhead, htotal, hlist, hsize, hfree, hprev, hnext, hback⟩

/-- This is indeed what `init_salloc` leaves. -/
theorem Heap.initial_initSalloc (s : Heap) (region : Region) (canExtend : Bool) :
    ∃ s', s.initSalloc ⟨some region, canExtend⟩ = .ok (s', 0) ∧ s'.Initial region ∧
      Carved ⟨s', []⟩ [] (freshBlock region) := by
  obtain ⟨s', hs', hhead, htotal, hwf⟩ := s.initSalloc_spec region canExtend
  exact ⟨s', hs', hwf.initial rfl hhead htotal, hwf, htotal, rfl, nofun, rfl⟩

end Initial

/-! ## Releasing everything -/

section ReleaseAll

variable {c : Config} {bs : List Block} {region : Region} {steps : Nat}

/-- **Releasing every live allocation once**, in whatever order, brings back the
heap that `init_salloc` has made. -/
theorem Config.Held.sfreeAll {ptrs : List Nat} (h : c.Held bs) (hsteps : allocSize ≤ steps)
    (hhead : c.heap.head = region.base) (htotal : c.heap.totalSize = allocSize)
    (hptrs : ptrs.Perm (c.live.map Allocation.ptr)) :
    ∃ s, c.heap.sfreeAll steps ptrs = .ok s ∧ s.Initial region := by
  obtain ⟨s, bs', hs, hr, h', hnone⟩ := h.wellFormed.sfreeAll (hptrs.trans h.live)
  exact ⟨s, hs steps (htotal ▸ hsteps),
    h'.initial hnone (hr.head.trans hhead) (hr.totalSize.trans htotal)⟩

end ReleaseAll

end Chronos.Salloc
