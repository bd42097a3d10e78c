import Chronos.Salloc.Release

/-!
# Combining neighbours

`combine` and `coalesce` run on a heap with known blocks: they do not fault,
and the blocks they leave are given by `absorbNext` and `absorbPrev`.
-/

namespace Chronos.Salloc

open Chronos.Lib Chronos.Lib.Ring

section Views

variable {s s' : Heap} {bs bs' : List Block} {A : List Nat} {H : Typed}

/-- Header addresses far enough apart show the memory as it is. -/
theorem Views.self (hfar : ∀ a ∈ A, ∀ b ∈ A, a = b ∨ a + sizeofSallocT ≤ b ∨ b + sizeofSallocT ≤ a)
    (hmapped : ∀ a ∈ A, s.mem.Mapped a sizeofSallocT) (hlt : ∀ a ∈ A, a < 2 ^ 64) :
    Views s A s.typed :=
  ⟨rfl, rfl, rfl, rfl, hfar, hmapped, hlt, fun _ _ _ => rfl⟩

theorem Formed.block_bounds (h : Formed s bs) {b : Block} (hb : b ∈ bs) :
    s.head ≤ b.addr ∧ b.addr + b.size ≤ s.head + s.totalSize := h.blocks.tiles.bounds hb

theorem Formed.views (h : Formed s bs) : Views s (addrs bs) s.typed := by
  refine Views.self h.blocks.far ?_ ?_
  · intro a ha
    obtain ⟨b, hb, rfl⟩ := mem_addrs.mp ha
    have := h.block_bounds hb
    have := b.fits
    exact h.mapped.mono (by omega) (by omega)
  · intro a ha
    obtain ⟨b, hb, rfl⟩ := mem_addrs.mp ha
    have := h.block_bounds hb
    have := h.space
    have := b.size_pos
    omega

/-- Two heaps occupy the same region of the same address space. -/
structure SameRegion (s s' : Heap) : Prop where
  head : s'.head = s.head
  totalSize : s'.totalSize = s.totalSize
  mapped : s'.mem.mapped = s.mem.mapped

theorem SameRegion.trans {s₁ s₂ s₃ : Heap} (h : SameRegion s₁ s₂) (h' : SameRegion s₂ s₃) :
    SameRegion s₁ s₃ :=
  ⟨h'.head.trans h.head, h'.totalSize.trans h.totalSize, h'.mapped.trans h.mapped⟩

theorem Views.sameRegion (hv : Views s' A H) (hh : H.head = s.head)
    (ht : H.totalSize = s.totalSize) (hm : H.mapped = s.mem.mapped) : SameRegion s s' :=
  ⟨hv.head.trans hh, hv.totalSize.trans ht, hv.mapping.trans hm⟩

/-- The shapes of a table are those of the memory that holds it. -/
theorem Views.formed (hv : Views s A H) (hpos : 0 < H.head) (hspace : H.head + H.totalSize < 2 ^ 64)
    (hmapped : ∀ i < H.totalSize, H.mapped (H.head + i) = true) (hsub : addrs bs ⊆ A)
    (hb : BlockShape H bs) (hf : FreeShape H (freeAddrs bs)) : Formed s bs where
  pos := hv.head ▸ hpos
  space := by rw [hv.head, hv.totalSize]; exact hspace
  mapped := by
    unfold Memory.Mapped
    rw [hv.head, hv.totalSize, hv.mapping]
    exact hmapped
  blocks := hb.congr hv.head hv.totalSize (fun a ha => hv.peek a (hsub ha) .sizeAndFree)
    fun a ha => hv.peek a (hsub ha) .prev
  frees := hf.congr hv.freeList (fun a ha => hv.peek a (hsub (freeAddrs_subset ha)) .nextFree)
    fun a ha => hv.peek a (hsub (freeAddrs_subset ha)) .prevFree

theorem Formed.of_views (h : Formed s bs) (hr : SameRegion s s') (hv : Views s' A H)
    (hsub : addrs bs' ⊆ A) (hb : BlockShape H bs') (hf : FreeShape H (freeAddrs bs')) :
    Formed s' bs' := by
  have hhead := hv.head.symm.trans hr.head
  have htotal := hv.totalSize.symm.trans hr.totalSize
  refine hv.formed ?_ ?_ ?_ hsub hb hf
  · rw [hhead]
    exact h.pos
  · rw [hhead, htotal]
    exact h.space
  · rw [hhead, htotal, ← hv.mapping, hr.mapped]
    exact h.mapped

end Views

/-! ## Combining neighbours -/

section Combine

variable {s : Heap} {p q bs : List Block} {b c : Block}

theorem Formed.combine (h : Formed s (p ++ b :: c :: q)) (hb : b.free = true)
    (hc : c.free = true) :
    ∃ s', s.combine b.addr c.addr = .ok s' ∧ SameRegion s s' ∧
      Formed s' (p ++ b.merge c :: q) := by
  have hbm : b ∈ p ++ b :: c :: q := by simp
  have hcm : c ∈ p ++ b :: c :: q := by simp
  have hnodup := h.blocks.nodup
  have hsub : addrs (p ++ b.merge c :: q) ⊆ addrs (p ++ b :: c :: q) := by
    intro a ha
    simp only [addrs_append, addrs_cons, Block.merge_addr, List.mem_append, List.mem_cons] at ha ⊢
    tauto
  have hnew : c.addr ∉ addrs (p ++ b.merge c :: q) := by
    simp only [addrs_append, addrs_cons, Block.merge_addr, List.nodup_append, List.nodup_cons,
      List.mem_append, List.mem_cons] at hnodup ⊢
    rintro (hp | he | hq)
    · exact hnodup.2.2 _ hp _ (Or.inr (Or.inl rfl)) rfl
    · exact hnodup.2.1.1 (Or.inl he.symm)
    · exact hnodup.2.1.2.1 hq
  have hne : c.addr ≠ b.addr := by
    intro e
    exact hnew (by simp [e])
  have hfc : c.addr ∈ freeAddrs (p ++ b :: c :: q) := mem_freeAddrs.mpr ⟨c, hcm, hc, rfl⟩
  obtain ⟨hnf, hpf⟩ := h.frees.links_mem hfc
  have hlt : s.typed.size b.addr + s.typed.size c.addr < 2 ^ 64 := by
    rw [h.blocks.size_eq hbm, h.blocks.size_eq hcm]
    have hmerge := h.blocks.merge.tiles.bounds (b := b.merge c) (by simp)
    have hspace : s.typed.head + s.typed.totalSize < 2 ^ 64 := h.space
    simp only [Block.merge_addr, Block.merge_size] at hmerge
    have : s.typed.head + s.typed.totalSize = ((s.typed.setSize b.addr
        (s.typed.size b.addr + s.typed.size c.addr)).listRemove c.addr).head +
        ((s.typed.setSize b.addr
        (s.typed.size b.addr + s.typed.size c.addr)).listRemove c.addr).totalSize := rfl
    omega
  obtain ⟨s', hs', hv'⟩ := h.views.combine (addr_mem_addrs hbm) (addr_mem_addrs hcm) hne
    (h.blocks.next_mem hcm) (freeAddrs_subset hpf) (freeAddrs_subset hnf) hlt
  have hr := hv'.sameRegion (s := s) rfl rfl rfl
  refine ⟨s', hs', hr, h.of_views hr hv' hsub ?_ ?_⟩
  · exact h.blocks.merge.listRemoveFree_other hnew true
  · have hf : FreeShape ((s.typed.setSize b.addr (s.typed.size b.addr + s.typed.size c.addr)).listRemove
        c.addr) ((freeAddrs p ++ [b.addr]) ++ c.addr :: freeAddrs q) := by
      have := h.frees
      rw [freeAddrs_append, freeAddrs_cons_free hb, freeAddrs_cons_free hc] at this
      rw [List.append_assoc]
      exact this.congr rfl (fun _ _ => by simp [Typed.listRemove, Typed.setSize_field_ne_field])
        fun _ _ => by simp [Typed.listRemove, Typed.setSize_field_ne_field]
    have := hf.listRemoveFree true
    rw [freeAddrs_append, freeAddrs_cons_free (b := b.merge c) hb]
    rwa [List.append_assoc] at this

/-- The first block of a heap lies at `head`. -/
theorem Formed.addr_eq_head_iff (h : Formed s (p ++ b :: q)) : b.addr = s.head ↔ p = [] := by
  have ht := h.blocks.tiles
  rw [Tiles.append_iff] at ht
  obtain ⟨mid, hp, hst, -⟩ := ht
  cases p with
  | nil => exact ⟨fun _ => rfl, fun _ => hst.trans hp.symm⟩
  | cons c p =>
    have := c.size_pos
    have hle := Tiles.le hp.2
    constructor
    · intro e
      have : s.typed.head = s.head := rfl
      omega
    · intro e
      cases e

theorem Formed.last_end (h : Formed s (p ++ [b])) : b.addr + b.size = s.head + s.totalSize := by
  have ht := h.blocks.tiles
  rw [Tiles.append_iff] at ht
  obtain ⟨mid, -, hst, hend⟩ := ht
  rw [hst]
  exact hend

theorem Formed.next_last (h : Formed s (p ++ [b])) : s.typed.next b.addr = s.head := by
  rw [h.blocks.next_eq (by simp), Heap.typed_head, Heap.typed_totalSize,
    if_pos (Nat.le_of_eq h.last_end.symm)]

theorem Formed.head_prev (h : Formed s (p ++ [b])) : s.typed.field s.head .prev = b.addr := by
  rw [← h.next_last]
  exact h.blocks.prev_next (by simp)

theorem Formed.next_cons (h : Formed s (p ++ b :: c :: q)) : s.typed.next b.addr = c.addr := by
  have ht := h.blocks.tiles
  rw [Tiles.append_iff] at ht
  obtain ⟨mid, -, hst, hst', hq⟩ := ht
  have := hq.le
  have := c.size_pos
  rw [h.blocks.next_eq (by simp), if_neg (by omega)]
  omega

theorem Formed.prev_cons (h : Formed s (p ++ b :: c :: q)) :
    s.typed.field c.addr .prev = b.addr := by
  rw [← h.next_cons]
  exact h.blocks.prev_next (by simp)

theorem toNat_eq_one_iff {x : Bool} : x.toNat = 1 ↔ x = true := by cases x <;> decide

theorem Formed.coalesceNext (h : Formed s (p ++ b :: q)) (hb : b.free = true) :
    ∃ s', s.coalesceNext b.addr = .ok s' ∧ SameRegion s s' ∧
      Formed s' (p ++ (absorbNext b q).1 :: (absorbNext b q).2) := by
  unfold Heap.coalesceNext
  rw [h.views.next (addr_mem_addrs (by simp))]
  cases q with
  | nil =>
    simp only [h.next_last, ne_eq, not_true_eq_false, if_false, bind, Except.bind]
    exact ⟨s, rfl, ⟨rfl, rfl, rfl⟩, h⟩
  | cons n q =>
    have hn : n ∈ p ++ b :: n :: q := by simp
    have hhead : n.addr ≠ s.head := by
      have h' : Formed s ((p ++ [b]) ++ n :: q) := by simpa using h
      intro e
      have := h'.addr_eq_head_iff.mp e
      simp at this
    simp only [h.next_cons, if_pos hhead, h.views.free (addr_mem_addrs hn), h.blocks.free_eq hn,
      toNat_eq_one_iff, bind, Except.bind]
    cases hf : n.free with
    | true =>
      rw [absorbNext_cons_free hf, if_pos rfl]
      exact h.combine hb hf
    | false =>
      rw [absorbNext_cons_used hf, if_neg (by decide)]
      exact ⟨s, rfl, ⟨rfl, rfl, rfl⟩, h⟩

theorem Formed.coalescePrev (h : Formed s (p ++ b :: q)) (hb : b.free = true) :
    ∃ s', s.coalescePrev b.addr = .ok s' ∧ SameRegion s s' ∧ Formed s' (absorbPrev p b q) := by
  unfold Heap.coalescePrev
  rcases List.eq_nil_or_concat' p with rfl | ⟨p, x, rfl⟩
  · rw [if_neg (by simp [h.addr_eq_head_iff])]
    exact ⟨s, rfl, ⟨rfl, rfl, rfl⟩, h⟩
  · have h' : Formed s (p ++ x :: b :: q) := by simpa using h
    have hbm : b ∈ p ++ x :: b :: q := by simp
    have hxm : x ∈ p ++ x :: b :: q := by simp
    rw [if_pos (by simp [h.addr_eq_head_iff])]
    simp only [h'.views.load (addr_mem_addrs hbm), h'.prev_cons, h'.views.free (addr_mem_addrs hxm),
      h'.blocks.free_eq hxm, toNat_eq_one_iff, bind, Except.bind]
    cases hx : x.free with
    | true =>
      rw [absorbPrev_concat_free hx, if_pos rfl]
      exact h'.combine hx hb
    | false =>
      rw [absorbPrev_concat_used hx, if_neg (by decide)]
      exact ⟨s, rfl, ⟨rfl, rfl, rfl⟩, h⟩

theorem Formed.coalesce (h : Formed s (p ++ b :: q)) (hb : b.free = true) :
    ∃ s', s.coalesce b.addr = .ok s' ∧ SameRegion s s' ∧
      Formed s' (absorbPrev p (absorbNext b q).1 (absorbNext b q).2) := by
  obtain ⟨s₁, hs₁, hr₁, h₁⟩ := h.coalesceNext hb
  obtain ⟨s₂, hs₂, hr₂, h₂⟩ := h₁.coalescePrev (absorbNext_free hb)
  refine ⟨s₂, ?_, hr₁.trans hr₂, h₂⟩
  rw [absorbNext_addr] at hs₂
  simp only [Heap.coalesce, hs₁, hs₂, bind, Except.bind]

end Combine

end Chronos.Salloc
