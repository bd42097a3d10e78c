import Chronos.Salloc.Frame
import Chronos.Salloc.Run

/-!
# Growing the heap

`increase_heap_size` never links the new region into the list of all regions:
it writes neither the new block's `prev` nor `head`'s. With free blocks in the
heap, `coalesce` follows the new block's null `prev`; with none, `head`'s
`prev` still names the old last block. Either way no well-formed heap is left.
-/

namespace Chronos.Salloc

open Chronos.Lib Chronos.Lib.Ring

theorem Heap.load_null (s : Heap) : s.load 0 .sizeAndFree = .error (.segv 0) :=
  if_neg (Memory.not_mapped_null (n := 8) (by decide))

section Extended

variable {s : Heap} {bs : List Block} {b : Block} {f : Field}

theorem Formed.extended_field (h : Formed s bs) (hb : b ∈ bs) :
    s.extended.typed.field b.addr f = s.typed.field b.addr f := by
  have := h.block_bounds hb
  have := b.fits
  have := f.offset_le
  exact Memory.peek_map_disjoint (by omega)

theorem Formed.extended_new : s.extended.typed.field (s.head + s.totalSize) f = 0 := by
  have := f.offset_le
  have : sizeofSallocT ≤ allocSize := by decide
  exact Memory.peek_map_inside (by omega) (by omega)

theorem Formed.new_not_mem (h : Formed s bs) : s.head + s.totalSize ∉ addrs bs := by
  intro hm
  obtain ⟨b, hb, he⟩ := mem_addrs.mp hm
  have := h.block_bounds hb
  have := b.size_pos
  omega

/-- The old headers and the new one in the extended memory. -/
theorem Formed.extended_views (h : Formed s bs) :
    Views s.extended ((s.head + s.totalSize) :: addrs bs) s.extended.typed := by
  have hold := h.views
  have hpos := h.pos
  have hhdr : sizeofSallocT ≤ allocSize := by decide
  refine Views.self ?_ ?_ ?_
  · simp only [List.forall_mem_cons]
    have hfar : ∀ a ∈ addrs bs, a + sizeofSallocT ≤ s.head + s.totalSize := by
      intro a ha
      obtain ⟨b, hb, rfl⟩ := mem_addrs.mp ha
      have := h.block_bounds hb
      have := b.fits
      omega
    exact ⟨⟨Or.inl trivial, fun a ha => Or.inr (Or.inr (hfar a ha))⟩,
      fun a ha => ⟨Or.inr (Or.inl (hfar a ha)), hold.far a ha⟩⟩
  · refine List.forall_mem_cons.mpr ⟨?_, fun a ha => (hold.mapped a ha).map⟩
    exact Memory.mapped_map_inside (by omega) (Nat.le_refl _) (by omega)
  · exact List.forall_mem_cons.mpr ⟨h.space, hold.lt⟩

end Extended

/-! ## The heap after growth -/

section Grown

variable {s s₁ s' : Heap} {bs bs' : List Block} {os : Os} {failed : Int}

/-- A heap without a free block that has grown: the new region is the only free one, and
no `prev` leads to or from it. -/
structure Heap.Grown (s s₁ : Heap) : Prop where
  head : s₁.head = s.head
  totalSize : s₁.totalSize = s.totalSize + allocSize
  freeList : s₁.freeList = s.head + s.totalSize
  mapped : s₁.mem.Mapped (s.head + s.totalSize) allocSize
  word : s₁.cell (s.head + s.totalSize) = allocSize + 1
  prev : s₁.cell (s.head + s.totalSize + 8) = 0
  nextFree : s₁.cell (s.head + s.totalSize + 16) = s.head + s.totalSize
  prevFree : s₁.cell (s.head + s.totalSize + 24) = s.head + s.totalSize
  old : ∀ x, x + 8 ≤ s.head + s.totalSize → s₁.cell x = s.cell x

theorem Heap.increaseHeapSize_ok (hpos : 0 < s.head) (hspace : s.head + s.totalSize < 2 ^ 64)
    (hlist : s.freeList = 0) (hos : os.canExtend = true)
    (h : s.increaseHeapSize os = .ok (s₁, failed)) : failed = 0 ∧ s.Grown s₁ := by
  have hsize := allocSize_eq
  obtain ⟨new, hnew⟩ : ∃ a, a = s.head + s.totalSize := ⟨_, rfl⟩
  have hold : ∀ x, x + 8 ≤ new → s.extended.cell x = s.cell x := by
    intro x hx
    unfold Heap.cell
    exact Memory.peek_map_disjoint (.inl (hnew ▸ hx))
  have hzero : ∀ x, new ≤ x → x + 8 ≤ new + allocSize → s.extended.cell x = 0 := by
    intro x hlo hhi
    unfold Heap.cell
    exact Memory.peek_map_inside (hnew ▸ hlo) (hnew ▸ hhi)
  have hmapped : s.extended.mem.Mapped new allocSize := by
    rw [hnew]
    exact Memory.mapped_map_inside (by omega) le_rfl le_rfl
  unfold Heap.increaseHeapSize at h
  rw [hos, ← hnew] at h
  simp only [Bool.not_true, Bool.false_eq_true, if_false] at h
  obtain ⟨s₂, hs₂, h⟩ := bind_eq_ok.mp h
  obtain ⟨s₃, hs₃, h⟩ := bind_eq_ok.mp h
  obtain ⟨h₂, hw₂⟩ := Heap.setSize_ok (by decide) hs₂
  obtain ⟨h₃, hw₃⟩ := Heap.setFree_ok hs₃
  have hlist₃ : s₃.freeList = 0 := by
    obtain ⟨_, -, hs₂⟩ := bind_eq_ok.mp hs₂
    obtain ⟨_, -, hs₃⟩ := bind_eq_ok.mp hs₃
    rw [Heap.store_freeList hs₃, Heap.store_freeList hs₂]
    exact hlist
  rw [if_pos hlist₃] at h
  obtain ⟨s₄, hs₄, h⟩ := bind_eq_ok.mp h
  obtain ⟨s₅, hs₅, h⟩ := bind_eq_ok.mp h
  obtain ⟨rfl, rfl⟩ := Prod.mk.inj (Except.ok.inj h)
  obtain ⟨h₄, hn₄⟩ := Heap.store_ok hs₄
  obtain ⟨h₅, hp₅⟩ := Heap.store_ok hs₅
  simp only [Field.offset] at h₄ h₅ hn₄ hp₅
  rw [Nat.mod_eq_of_lt (hnew ▸ hspace)] at hn₄ hp₅
  have hall := ((h₂.trans h₃).trans ((Heap.changes_freeList s₃ new).trans h₄)).trans h₅
  refine ⟨rfl, hall.head, hall.totalSize, ?_, ?_, ?_, ?_, ?_, ?_, ?_⟩
  all_goals rw [← hnew]
  · rw [Heap.store_freeList hs₅, Heap.store_freeList hs₄]
  · unfold Memory.Mapped at hmapped ⊢
    rw [hall.mapped]
    exact hmapped
  · rw [h₅.cells _ (by simp), h₄.cells _ (by simp),
      (Heap.changes_freeList s₃ new).cells _ (by simp), hw₃, Heap.sizeAt, hw₂,
      hzero _ le_rfl (by omega)]
    omega
  · rw [hall.cells _ (by simp), hzero _ (by omega) (by omega)]
  · rw [h₅.cells _ (by simp), hn₄]
  · exact hp₅
  · intro x hx
    rw [hall.cells x (by simp; omega), hold x hx]

theorem Heap.Grown.sizeAt_eq (h : s.Grown s₁) :
    s₁.sizeAt (s.head + s.totalSize) = allocSize := by
  rw [Heap.sizeAt, h.word]
  decide

/-- A region put behind the blocks of a heap needs its `prev`. -/
theorem Formed.prev_ne_zero (h : Formed s bs) (hne : bs ≠ []) (h' : Formed s' bs')
    (hhead : s'.head = s.head) (htotal : s.totalSize < s'.totalSize)
    (hwords : ∀ b ∈ bs, s'.sizeAt b.addr = b.size) :
    s'.cell (s.head + s.totalSize + 8) ≠ 0 := by
  have hform : Formed s (bs ++ []) := by simpa using h
  obtain ⟨mid, p, q, rfl, hbs, hp, hmid, hq⟩ := hform.walk h' hhead htotal.le hwords
  obtain rfl : mid = s.head + s.totalSize := hmid
  cases q with
  | nil =>
    have hend : s.head + s.totalSize = s'.head + s'.totalSize := hq
    omega
  | cons d q =>
    rcases List.eq_nil_or_concat' p with rfl | ⟨p, b, rfl⟩
    · have hst : s.head = s.head + s.totalSize := hp
      have hlen := hbs.length_le fun b _ => b.size_pos
      have := List.length_pos_of_ne_nil hne
      omega
    · rw [List.append_assoc, List.singleton_append] at h'
      have hprev := h'.blocks.prev_next (b := b) (by simp)
      rw [h'.next_cons, Heap.typed_field_eq, hq.1] at hprev
      have hprev : s'.cell (s.head + s.totalSize + 8) = b.addr := hprev
      rw [hprev]
      exact h'.pos_addr (by simp)

/-- A grown heap is one without the `prev` that it needs. -/
theorem Heap.Grown.not_formed (hgrown : s.Grown s₁) (h : Formed s bs) (hne : bs ≠ []) :
    ¬Formed s₁ bs' := by
  intro h'
  refine h.prev_ne_zero hne h' hgrown.head ?_ (fun b hb => ?_) hgrown.prev
  · rw [hgrown.totalSize]
    exact Nat.lt_add_of_pos_right (by decide)
  · have hbounds := (h.block_bounds hb).2
    have hfits := b.fits
    have hhdr : sizeofSallocT = 32 := rfl
    rw [← h.sizeAt_eq hb, Heap.sizeAt, Heap.sizeAt, hgrown.old _ (by omega)]

end Grown

/-! ## What growth does to a well-formed heap -/

section Grow

variable {s : Heap} {bs : List Block} {os : Os}

/-- **Growing with a free block in the heap** follows the null pointer that
`mmap` left in the new block's `prev`. -/
theorem WellFormed.increaseHeapSize_segv (h : WellFormed s bs) (hos : os.canExtend = true)
    (hfree : freeAddrs bs ≠ []) : s.increaseHeapSize os = .error (.segv 0) := by
  obtain ⟨new, hnew⟩ : ∃ a, a = s.head + s.totalSize := ⟨_, rfl⟩
  have hv := h.extended_views
  have hnotin := h.new_not_mem
  have hzero : s.extended.typed.field new .prev = 0 := hnew ▸ Formed.extended_new
  rw [← hnew] at hv hnotin
  have hn : new ∈ new :: addrs bs := List.mem_cons_self
  obtain ⟨s₁, hs₁, hv₁⟩ := hv.setSize hn (v := allocSize) (by decide)
  obtain ⟨s₂, hs₂, hv₂⟩ := hv₁.setFree hn (v := 1)
  -- the free links of the old blocks are as before
  have hlink : ∀ a ∈ freeAddrs bs, ∀ f, f ≠ .sizeAndFree →
      ((s.extended.typed.setSize new allocSize).setFree new 1).field a f = s.typed.field a f := by
    intro a ha f hf
    obtain ⟨b, hb, rfl⟩ := mem_addrs.mp (freeAddrs_subset ha)
    rw [Typed.setFree_field_ne_field hf, Typed.setSize_field_ne_field hf, h.extended_field hb]
  have hlist : s.freeList ∈ freeAddrs bs := by
    rcases h.frees.freeList with ⟨hnil, -⟩ | hmem
    · exact absurd hnil hfree
    · exact hmem
  have hlist₂ : s₂.freeList = s.freeList := hv₂.freeList
  have h0 : s.freeList ≠ 0 := h.frees.pos _ hlist
  obtain ⟨hnf, hpf⟩ := h.frees.links_mem hlist
  have hin : ∀ a ∈ freeAddrs bs, a ∈ new :: addrs bs := fun a ha =>
    List.mem_cons_of_mem _ (freeAddrs_subset ha)
  have hne : s.typed.field s.freeList .prevFree ≠ new := fun e =>
    hnotin (e ▸ freeAddrs_subset hpf)
  obtain ⟨hnf', -⟩ := h.frees.links_mem hpf
  obtain ⟨s₃, hs₃, hv₃⟩ := hv₂.insertFree (hin _ hpf) hn hne
    (by rw [hlink _ hpf _ (by decide)]; exact hin _ hnf')
  have hpos : 0 < s.totalSize := by
    obtain ⟨b, hb, -⟩ := mem_addrs.mp (freeAddrs_subset hlist)
    have := h.block_bounds hb
    have := b.size_pos
    omega
  -- the new block is the last one, so `coalesce` leaves its successor alone
  have hhead : s₃.head = s.head := hv₃.head
  have hsize : s₃.next new = .ok s.head := by
    have htotal : s.extended.typed.totalSize = s.totalSize + allocSize := rfl
    have heven : allocSize % 2 = 0 := by decide
    rw [hv₃.next hn]
    unfold Typed.next
    rw [Typed.insertFree_size, Typed.setFree_size, Typed.setSize_size, if_pos]
    · rfl
    · have : s.head + (s.totalSize + allocSize) ≤ new + (allocSize - allocSize % 2) := by omega
      exact this
  have hprev : s₃.load new .prev = .ok 0 := by
    rw [hv₃.load hn, Typed.insertFree_prev, Typed.setFree_field_ne_field (by decide),
      Typed.setSize_field_ne_field (by decide), hzero]
  have hnull : s₃.free 0 = .error (.segv 0) := by
    unfold Heap.free
    rw [Heap.load_null]
    rfl
  have hnext : s₃.coalesceNext new = .ok s₃ := by
    unfold Heap.coalesceNext
    rw [hsize, bind_ok, if_neg (by rw [hhead]; exact fun hne => hne rfl)]
    rfl
  have hback : s₃.coalescePrev new = .error (.segv 0) := by
    unfold Heap.coalescePrev
    rw [if_pos (by rw [hhead]; omega), hprev, bind_ok, hnull]
    rfl
  have hload : s₂.load s.freeList .prevFree = .ok (s.typed.field s.freeList .prevFree) := by
    rw [hv₂.load (hin _ hlist), hlink _ hlist _ (by decide)]
  unfold Heap.increaseHeapSize
  rw [hos, ← hnew]
  simp only [Bool.not_true, Bool.false_eq_true, if_false, hs₁, hs₂, bind_ok, hlist₂, h0, hload,
    hs₃, Heap.coalesce, hnext, hback]
  rfl

/-- **Growing with no free block in the heap** leaves a null `prev` in the new region. -/
theorem WellFormed.increaseHeapSize_not_formed (h : WellFormed s bs) (hos : os.canExtend = true)
    (hfree : freeAddrs bs = []) {s' : Heap} {failed : Int}
    (hgrow : s.increaseHeapSize os = .ok (s', failed)) (bs' : List Block) : ¬Formed s' bs' := by
  intro h'
  obtain ⟨-, hgrown⟩ :=
    Heap.increaseHeapSize_ok h.pos h.space (h.freeList_eq_zero hfree) hos hgrow
  cases bs with
  | nil =>
    -- no blocks at all: the new region starts at `head`
    have hpos : 0 < allocSize := by decide
    have hstart : s.head = s.head + s.totalSize := h.blocks.tiles
    have hzero := hgrown.prev
    rw [← hstart, ← hgrown.head] at hzero
    rcases List.eq_nil_or_concat' bs' with rfl | ⟨p, b, rfl⟩
    · have hnil : s'.head = s'.head + s'.totalSize := h'.blocks.tiles
      rw [hgrown.totalSize] at hnil
      omega
    · have hlast := h'.head_prev
      rw [Heap.typed_field_eq] at hlast
      exact h'.pos_addr (by simp) (hlast.symm.trans hzero)
  | cons b bs => exact hgrown.not_formed h.toFormed (by simp) h'

/-- **Growth never leaves a well-formed heap.** -/
theorem not_wellFormed_of_increaseHeapSize (h : WellFormed s bs) (hos : os.canExtend = true) :
    ¬∃ s' failed bs', s.increaseHeapSize os = .ok (s', failed) ∧ WellFormed s' bs' := by
  rintro ⟨s', failed, bs', hgrow, h'⟩
  by_cases hfree : freeAddrs bs = []
  · exact h.increaseHeapSize_not_formed hos hfree hgrow bs' h'.toFormed
  · rw [h.increaseHeapSize_segv hos hfree] at hgrow
    cases hgrow

/-- Growing a fresh heap. -/
theorem not_wellFormed_of_increaseHeapSize_fresh :
    ∃ s, (Config.start .empty).heap.initSalloc secondPage = .ok (s, 0) ∧
      ¬∃ s' failed bs', s.increaseHeapSize ⟨none, true⟩ = .ok (s', failed) ∧
        WellFormed s' bs' := by
  obtain ⟨s, hs, -, -, hwf⟩ := Heap.initSalloc_spec (Config.start .empty).heap
    ⟨4096, by decide, by decide, by decide⟩ false
  exact ⟨s, hs, not_wellFormed_of_increaseHeapSize hwf rfl⟩

/-- **Growth faults on a fresh heap.** A request for the whole first region
does not fit, and the extension the system grants ends at a null pointer. -/
theorem increaseHeapSize_fails :
    ∃ s bs, WellFormed s bs ∧ (∀ b ∈ bs, b.free = true → usableSizeOf b.size < 2 ^ 30) ∧
      s.increaseHeapSize ⟨none, true⟩ = .error (.segv 0) := by
  obtain ⟨s, -, -, -, hwf⟩ := Heap.initSalloc_spec (Config.start .empty).heap
    ⟨4096, by decide, by decide, by decide⟩ false
  refine ⟨s, _, hwf, ?_, hwf.increaseHeapSize_segv rfl ?_⟩
  · rw [List.forall_mem_singleton]
    intro _
    decide
  · rw [freeAddrs_cons_free rfl]
    exact List.cons_ne_nil _ _

end Grow

end Chronos.Salloc
