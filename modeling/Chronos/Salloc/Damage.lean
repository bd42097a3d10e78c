import Chronos.Salloc.Room

/-!
# Calls that leave no heap behind

A block that fits exactly is split all the same, and the second half is a header of size
0 where the next block begins. A heap that has grown keeps a null `prev` in the new
region. After neither is there a list of blocks that the memory describes.
-/

namespace Chronos.Salloc

open Chronos.Lib Chronos.Lib.Ring

section Exact

variable {s s' : Heap} {p q bs' : List Block} {c : Block} {size ptr : Nat}

/-- What is left where a block that ends at `e` was split with nothing left over: the size
words of the blocks `p` up to there, a header of size 0, and a `prev` that leads to it. -/
structure Heap.ExactSplit (s s' : Heap) (p : List Block) (e : Nat) : Prop where
  head : s'.head = s.head
  totalSize : s'.totalSize = s.totalSize
  word : s'.cell e = 1
  sizes : ∀ b ∈ p, s'.sizeAt b.addr = b.size
  prev : e = s.head + s.totalSize → s'.cell (s.head + 8) = e

/-- Nothing left over is taken to be a lot. -/
theorem WellFormed.exactSplit (h : WellFormed s (p ++ c :: q)) (hfree : c.free = true)
    (hexact : usableSizeOf c.size = size) (htake : s.take c.addr size = .ok (s', ptr)) :
    s.ExactSplit s' (p ++ [c]) (c.addr + c.size) := by
  have hcm : c ∈ p ++ c :: q := by simp
  have hfits := c.fits
  have hoff : regionOffset = 16 := rfl
  have hhdr : sizeofSallocT = 32 := rfl
  have hlt := h.size_lt hcm
  have hbounds := h.block_bounds hcm
  have hspace := h.space
  have husable : size = c.size - regionOffset :=
    hexact.symm.trans (sizeSub_eq_sub (by omega) hlt)
  obtain ⟨e, he⟩ : ∃ e, e = c.addr + c.size := ⟨_, rfl⟩
  have hb : e = regionStart c.addr + size := by
    unfold regionStart
    omega
  have hsplit : s.takeSplit c.addr size 0 = .ok (s', ptr) := by
    have hS := h.sizeAt_eq hcm
    rcases Heap.take_ok hS (by omega) htake with ⟨hsmall, -⟩ | ⟨-, hsplit⟩
    · rw [← husable, Nat.sub_self] at hsmall
      exact absurd hsmall (by decide)
    · rwa [← husable, Nat.sub_self] at hsplit
  obtain ⟨-, hword, hcurr, s₁, pf, hpf, h₁, hback, h₂⟩ :=
    Heap.takeSplit_ok hb (h.splits hfree (by omega) (by omega)) (by decide) hsplit
  rw [h.sizeAt_eq hcm, sizeSub_eq_sub (Nat.zero_le _) hlt] at hcurr
  rw [Nat.mod_eq_of_lt (show e < 2 ^ 64 by omega)] at hback hpf h₂
  obtain ⟨hnf, hpf'⟩ := h.frees.links_mem (mem_freeAddrs.mpr ⟨c, hcm, hfree, rfl⟩)
  rw [Heap.typed_field_eq] at hnf hpf'
  replace hnf := freeAddrs_subset hnf
  replace hpf' := freeAddrs_subset hpf'
  simp only [Field.offset] at hnf hpf'
  have hpfcases : pf = e ∨ pf ∈ addrs (p ++ c :: q) := by
    rcases hpf with hpf | hpf
    · exact .inl hpf
    · rw [hpf]
      exact .inr hpf'
  have hhm : s.head ∈ addrs (p ++ c :: q) := h.head_mem (by simp)
  have hafter : s.afterSplit e 0 = e ∨ s.afterSplit e 0 ∈ addrs (p ++ c :: q) := by
    unfold Heap.afterSplit
    split
    · exact .inr hhm
    · exact .inl rfl
  rw [← he]
  refine ⟨h₂.head.trans h₁.head, h₂.totalSize.trans h₁.totalSize, hword, fun d hd => ?_,
    fun hend => ?_⟩
  · rcases List.mem_append.mp hd with hd | hd
    · have hdm : d ∈ p ++ c :: q := List.mem_append_left _ hd
      have hdc : d.addr + d.size ≤ c.addr :=
        (List.pairwise_append.mp h.blocks.tiles.pairwise).2.2 d hd c List.mem_cons_self
      have hdfits := d.fits
      have happart : ∀ a, a = e ∨ a ∈ addrs (p ++ c :: q) → ∀ o, 8 ≤ o → o ≤ 24 →
          d.addr + 8 ≤ a + o ∨ a + o + 8 ≤ d.addr := by
        rintro a (rfl | ha) o hlo hhi
        · omega
        · exact h.apart hdm ha o hlo hhi
      rw [← h.sizeAt_eq hdm, Heap.sizeAt, Heap.sizeAt, h₂.cells d.addr ?_, h₁.cells d.addr ?_]
      · have := happart _ hafter 8 (by omega) (by omega)
        simp only [List.forall_mem_cons, List.not_mem_nil, false_imp_iff, implies_true, and_true]
        omega
      · have := happart _ (.inr hnf) 24 (by omega) (by omega)
        have := happart _ hpfcases 16 (by omega) (by omega)
        simp only [List.forall_mem_cons, List.not_mem_nil, false_imp_iff, implies_true, and_true]
        omega
    · rw [List.mem_singleton.mp hd, Heap.sizeAt, hcurr]
      have := c.even
      omega
  · -- behind the last block comes the first one
    have hfirst : s.afterSplit e 0 = s.head := if_pos hend.ge
    rw [hfirst] at hback
    rw [h₂.cells _ ?_, hback]
    have hnfar := h.blocks.far _ hnf _ hhm
    have hcfar := h.blocks.far _ (addr_mem_addrs hcm) _ hhm
    have hpfar : pf = e ∨ pf = s.head ∨ pf + sizeofSallocT ≤ s.head ∨
        s.head + sizeofSallocT ≤ pf := hpfcases.imp_right fun ha => h.blocks.far _ ha _ hhm
    simp only [List.forall_mem_cons, List.not_mem_nil, false_imp_iff, implies_true, and_true]
    omega

/-- **An exact fit damages the heap.** -/
theorem WellFormed.take_exact (h : WellFormed s (p ++ c :: q)) (hfree : c.free = true)
    (hexact : usableSizeOf c.size = size) (htake : s.take c.addr size = .ok (s', ptr)) :
    ¬Formed s' bs' := by
  obtain ⟨hhead, htotal, hword, hsizes, hprev⟩ := h.exactSplit hfree hexact htake
  intro h'
  have hform : Formed s ((p ++ [c]) ++ q) := by simpa using h.toFormed
  obtain ⟨mid, p', q', rfl, hp, hp', hq, hq'⟩ := hform.walk h' hhead htotal.ge hsizes
  obtain ⟨lo, hlo, hclo, hcmid⟩ := Tiles.append_iff.mp hp
  obtain rfl : c.addr + c.size = mid := by
    rw [hclo]
    exact hcmid
  rw [hhead, htotal] at hq'
  cases q with
  | nil =>
    -- the last block: `prev` of the first one leads past the end
    have hprev := hprev hq
    rcases List.eq_nil_or_concat' (p' ++ q') with hnil | ⟨p'', d, hd⟩
    · rw [(List.append_eq_nil_iff.mp hnil).1] at hp'
      have hempty : s.head = c.addr + c.size := hp'
      have := hlo.le
      have := c.size_pos
      omega
    · rw [hd] at h'
      have hlast := h'.head_prev
      rw [Heap.typed_field_eq, hhead] at hlast
      have hd : s'.cell (s.head + 8) = d.addr := hlast
      have hend : c.addr + c.size = s.head + s.totalSize := hq
      have := h'.last_end
      have := d.size_pos
      omega
  | cons n q =>
    -- the next block's size word
    cases q' with
    | nil =>
      have := n.size_pos
      have hend : c.addr + c.size = s.head + s.totalSize := hq'
      have hnend : c.addr + c.size + n.size ≤ s.head + s.totalSize := hq.2.le
      omega
    | cons d q' =>
      have hsize := h'.sizeAt_eq (c := d) (by simp)
      rw [hq'.1, Heap.sizeAt, hword] at hsize
      have := d.fits
      have : sizeofSallocT = 32 := rfl
      omega

end Exact

section Grown

variable {s s₁ s' : Heap} {bs bs' : List Block} {os : Os} {size steps n ptr : Nat}

/-- A request served from the new region stores nothing in the old one but the `prev` of
its first block, and leaves the `prev` of the new one alone. -/
theorem Heap.Grown.take_changes (h : s.Grown s₁) (hspace : s.head + s.totalSize < 2 ^ 64)
    (htotal : s.totalSize = 0 ∨ sizeofSallocT ≤ s.totalSize) (hmin : smallestRegion ≤ size)
    (heven : size % 2 = 0) (hfit : size ≤ usableSizeOf allocSize)
    (htake : s₁.take (s.head + s.totalSize) size = .ok (s', ptr)) :
    s'.head = s.head ∧ s'.totalSize = s.totalSize + allocSize ∧
      (s.head + s.totalSize + allocSize < 2 ^ 64 → ∀ x,
        x + 8 ≤ s.head + s.totalSize ∨ x = s.head + s.totalSize + 8 →
        x ≤ s.head ∨ s.head + 16 ≤ x → s'.cell x = s₁.cell x) := by
  have hoff : regionOffset = 16 := rfl
  have hhdr : sizeofSallocT = 32 := rfl
  have hsmall := smallestRegion_eq
  have hsize := allocSize_eq
  have husable : usableSizeOf allocSize = 2 ^ 30 - 16 := by decide
  obtain ⟨new, hnew⟩ : ∃ a, a = s.head + s.totalSize := ⟨_, rfl⟩
  have hnf := h.nextFree
  have hpf := h.prevFree
  have hS := h.sizeAt_eq
  have hsplits : ∀ b, new + sizeofSallocT ≤ b → b ≤ new + allocSize → s₁.Splits new b := by
    rw [hnew]
    exact fun b => h.splits hspace htotal
  rw [← hnew] at htake hnf hpf hS ⊢
  rcases Heap.take_ok hS (by omega) htake with ⟨-, hwhole⟩ | ⟨-, hsplit⟩
  · obtain ⟨-, hchanges, -⟩ := Heap.takeWhole_ok (.inl hnf) (.inl hpf) hwhole
    rw [hnf, hpf] at hchanges
    refine ⟨hchanges.head.trans h.head, hchanges.totalSize.trans h.totalSize, fun _ x hx _ => ?_⟩
    rw [hchanges.cells _ (by simp; omega)]
  · obtain ⟨e, he⟩ : ∃ e, e = regionStart new + size := ⟨_, rfl⟩
    have hereg : e = new + 16 + size := he
    obtain ⟨-, -, -, s₂, pf, hpfcases, h₁, -, h₂⟩ := Heap.takeSplit_ok he
      (hsplits e (by omega) (by omega)) (by omega) hsplit
    refine ⟨(h₂.head.trans h₁.head).trans h.head,
      (h₂.totalSize.trans h₁.totalSize).trans h.totalSize, fun hend x hx hprev => ?_⟩
    have hafter : s₁.afterSplit e (allocSize - regionOffset - size) = s.head := by
      unfold Heap.afterSplit
      rw [if_pos (by rw [h.head, h.totalSize]; omega), h.head]
    rw [Nat.mod_eq_of_lt (show e < 2 ^ 64 by omega)] at hpfcases h₂
    rw [hpf] at hpfcases
    rw [hnf] at h₂
    rw [hafter] at h₁
    rw [h₂.cells _ (by simp; omega), h₁.cells _ (by simp; omega)]

/-- **A request served after growth damages the heap.** -/
theorem WellFormed.take_grown (h : WellFormed s bs) (hne : bs ≠ []) (hgrown : s.Grown s₁)
    (hmin : smallestRegion ≤ size) (heven : size % 2 = 0) (hfit : size ≤ usableSizeOf allocSize)
    (htake : s₁.take (s.head + s.totalSize) size = .ok (s', ptr)) : ¬Formed s' bs' := by
  have hhdr : sizeofSallocT = 32 := rfl
  have hpos : 0 < allocSize := by decide
  have hlow : sizeofSallocT ≤ s.totalSize := by
    refine h.totalSize_cases.resolve_left fun h0 => hne ?_
    have hlen := h.blocks.tiles.length_le fun b _ => b.size_pos
    rw [Heap.typed_head, Heap.typed_totalSize, h0] at hlen
    exact List.length_eq_zero_iff.mp (by omega)
  intro h'
  obtain ⟨hhead, htotal, hcells⟩ :=
    hgrown.take_changes h.space h.totalSize_cases hmin heven hfit htake
  have hspace := h'.space
  rw [hhead, htotal, ← Nat.add_assoc] at hspace
  refine h.prev_ne_zero hne h' hhead (by omega) (fun b hb => ?_) ?_
  · have hbounds := h.block_bounds hb
    have hfits := b.fits
    have hfar := h.blocks.far _ (h.head_mem hne) _ (addr_mem_addrs hb)
    rw [← h.sizeAt_eq hb, Heap.sizeAt, Heap.sizeAt,
      hcells hspace _ (.inl (by omega)) (by omega), hgrown.old _ (by omega)]
  · rw [hcells hspace _ (.inr rfl) (by omega), hgrown.prev]

/-- **A call that grows the heap damages it.** -/
theorem WellFormed.salloc_grow_damages (h : WellFormed s bs) (hne : bs ≠ [])
    (hmin : smallestRegion ≤ alignRequest n) (heven : alignRequest n % 2 = 0)
    (hnone : s.firstFit steps (alignRequest n) = .ok none)
    (hret : s.salloc os steps n = .ok (s', ptr)) (h' : Formed s' bs') : s' = s ∧ ptr = 0 := by
  refine (h.salloc_grow hnone hret).resolve_right ?_
  rintro ⟨s₁, hgrown, ⟨hfit, htake⟩ | ⟨rfl, -⟩⟩
  · exact h.take_grown hne hgrown hmin heven hfit htake h'
  · exact hgrown.not_formed h.toFormed hne h'

/-- A failed first `mmap` leaves no room for a region to grow. -/
theorem WellFormed.salloc_grow_mapFailed (h : WellFormed s []) (hfailed : s.head = mapFailed)
    (hmin : smallestRegion ≤ alignRequest n) (heven : alignRequest n % 2 = 0)
    (hnone : s.firstFit steps (alignRequest n) = .ok none)
    (hret : s.salloc os steps n = .ok (s', ptr)) (h' : Formed s' bs') : s' = s ∧ ptr = 0 := by
  refine (h.salloc_grow hnone hret).resolve_right ?_
  rintro ⟨s₁, hgrown, hserved⟩
  have hend : mapFailed + allocSize ≥ 2 ^ 64 := by decide
  have hspace := h'.space
  have hregion : s'.head = s.head ∧ s'.totalSize = s.totalSize + allocSize := by
    rcases hserved with ⟨hfit, htake⟩ | ⟨rfl, -⟩
    · obtain ⟨hhead, htotal, -⟩ :=
        hgrown.take_changes h.space h.totalSize_cases hmin heven hfit htake
      exact ⟨hhead, htotal⟩
    · exact ⟨hgrown.head, hgrown.totalSize⟩
  rw [hregion.1, hregion.2, hfailed] at hspace
  omega

end Grown

end Chronos.Salloc
