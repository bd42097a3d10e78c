import Chronos.Salloc.Sfree

/-!
# `init_salloc` and `salloc`

A free block is handed out whole, or split when enough of it is left over.
-/

namespace Chronos.Salloc

open Chronos.Lib Chronos.Lib.Ring

section Take

variable {s : Heap} {p q bs : List Block} {b c : Block} {size steps : Nat}

theorem Typed.cut_insert_link {H : Typed} {a bottom t list node x : Nat} {f : Field}
    (hw : f ≠ .sizeAndFree) (hp : f ≠ .prev) :
    ((H.cut a bottom t).insert list node).field x f = H.field x f := by
  unfold Typed.insert Typed.cut
  rw [Typed.set_field_ne_field hp, Typed.set_field_ne_field hp, Typed.setFree_field_ne_field hw,
    Typed.setFree_field_ne_field hw, Typed.setSize_field_ne_field hw,
    Typed.setSize_field_ne_field hw]

theorem bind_ok {ε α β : Type} (a : α) (f : α → Except ε β) : (Except.ok a >>= f) = f a := rfl

theorem Formed.size_lt (h : Formed s bs) (hb : b ∈ bs) : b.size < 2 ^ 64 := by
  have := (h.block_bounds hb).2
  have := h.space
  omega

theorem Formed.splitSize (h : Formed s bs) (hb : b ∈ bs) :
    s.splitSize b.addr size = .ok (sizeSub (usableSizeOf b.size) size) := by
  unfold Heap.splitSize Heap.usableSize
  simp only [h.views.size (addr_mem_addrs hb), h.blocks.size_eq hb, bind, Except.bind, pure,
    Except.pure]

/-- `_salloc` finds a fitting free block whenever there is one. -/
theorem Formed.firstFit (h : Formed s bs) (hsteps : bs.length ≤ steps) (size : Nat) :
    (∃ b ∈ bs, b.free = true ∧ size ≤ usableSizeOf b.size ∧
      s.firstFit steps size = .ok (some b.addr)) ∨
    (s.firstFit steps size = .ok none ∧ ∀ b ∈ bs, b.free = true → usableSizeOf b.size < size) := by
  unfold Heap.firstFit
  rcases h.current with ⟨h0, hnil⟩ | ⟨p, c, q, hpcq, hc⟩
  · right
    refine ⟨if_pos h0, fun b hb hbf => ?_⟩
    have : b ∈ freeBlocks bs := mem_freeBlocks.mpr ⟨hb, hbf⟩
    rw [hnil] at this
    cases this
  · have hmem : ∀ b, b ∈ c :: (q ++ p) ↔ b ∈ bs ∧ b.free = true := by
      intro b
      rw [← mem_freeBlocks, hpcq]
      simp only [List.mem_cons, List.mem_append]
      tauto
    have h0 : s.freeList ≠ 0 := hc ▸ h.pos_addr ((hmem c).mp List.mem_cons_self).1
    rw [if_neg h0, h.search hpcq hc (Nat.le_trans freeBlocks_length_le hsteps)]
    cases hfind : (c :: (q ++ p)).find? fun b => decide (size ≤ usableSizeOf b.size) with
    | some b =>
      left
      have hb := (hmem b).mp (List.mem_of_find?_eq_some hfind)
      exact ⟨b, hb.1, hb.2, by simpa using List.find?_some hfind, rfl⟩
    | none =>
      right
      refine ⟨rfl, fun b hb hbf => ?_⟩
      simpa using List.find?_eq_none.mp hfind b ((hmem b).mpr ⟨hb, hbf⟩)

/-- The part of `_salloc` that keeps a block whole. -/
theorem Formed.take_whole (h : Formed s (p ++ b :: q)) (hb : b.free = true)
    (hsmall : usableSizeOf (sizeSub (usableSizeOf b.size) size) < smallestRegion) :
    ∃ s', s.take b.addr size = .ok (s', regionStart b.addr) ∧ SameRegion s s' ∧
      Formed s' (p ++ b.withFree false :: q) := by
  obtain ⟨s', hs', hr, h'⟩ := h.listRemoveFree hb false
  refine ⟨s', ?_, hr, h'⟩
  unfold Heap.take
  rw [h.splitSize (by simp), bind_ok, if_pos hsmall, Heap.takeWhole, hs']
  rfl

/-- The memory seen as the headers of the blocks and one more inside `b`. -/
theorem Formed.views_cut (h : Formed s bs) (hb : b ∈ bs) {t : Nat} (hfit : sizeofSallocT ≤ t)
    (hle : t + sizeofSallocT ≤ b.size) :
    Views s ((b.addr + (b.size - t)) :: addrs bs) s.typed := by
  have hbound := h.block_bounds hb
  have hspace := h.space
  have hfar : ∀ c ∈ bs, b.addr + (b.size - t) + sizeofSallocT ≤ c.addr ∨
      c.addr + sizeofSallocT ≤ b.addr + (b.size - t) := by
    intro c hc
    have := c.fits
    by_cases hcb : c = b
    · subst hcb
      right
      omega
    · rcases h.blocks.tiles.disjoint hc hb hcb with hd | hd <;> omega
  have hold := h.views
  refine Views.self ?_ ?_ ?_
  · simp only [List.forall_mem_cons]
    refine ⟨⟨Or.inl trivial, ?_⟩, ?_⟩
    · intro y hy
      obtain ⟨c, hc, rfl⟩ := mem_addrs.mp hy
      exact Or.inr (hfar c hc)
    · intro x hx
      refine ⟨?_, hold.far x hx⟩
      obtain ⟨c, hc, rfl⟩ := mem_addrs.mp hx
      exact Or.inr (hfar c hc).symm
  · exact List.forall_mem_cons.mpr ⟨h.mapped.mono (by omega) (by omega), hold.mapped⟩
  · exact List.forall_mem_cons.mpr ⟨by omega, hold.lt⟩

theorem addrs_split_subset {t : Nat} {heven : t % 2 = 0} {hfit : sizeofSallocT ≤ t}
    {hle : t + sizeofSallocT ≤ b.size} :
    addrs (p ++ b.low t heven hle :: b.high t heven hfit :: q) ⊆
      (b.addr + (b.size - t)) :: addrs (p ++ b :: q) := by
  intro a ha
  simp only [addrs_append, addrs_cons, Block.low_addr, Block.high_addr, List.mem_append,
    List.mem_cons] at ha ⊢
  tauto

/-- The part of `_salloc` that splits a block, `t` bytes being left over. -/
theorem Formed.take_split (h : Formed s (p ++ b :: q)) (hb : b.free = true) {t : Nat}
    (heven : t % 2 = 0) (hfit : sizeofSallocT ≤ t) (hle : t + sizeofSallocT ≤ b.size)
    (hsize : size + regionOffset + t = b.size) :
    ∃ s', s.take b.addr size = .ok (s', regionStart b.addr) ∧ SameRegion s s' ∧
      Formed s' (p ++ b.low t heven hle :: b.high t heven hfit :: q) := by
  have hbm : b ∈ p ++ b :: q := by simp
  have hlt := h.size_lt hbm
  have hoff : regionOffset = 16 := rfl
  have hhdr : sizeofSallocT = 32 := rfl
  have husable : usableSizeOf b.size = b.size - regionOffset := sizeSub_eq_sub (by omega) hlt
  have hsplit : sizeSub (usableSizeOf b.size) size = t := by
    rw [husable, sizeSub_eq_sub (by omega) (by omega)]
    omega
  have hlarge : ¬usableSizeOf t < smallestRegion := by
    have := smallestRegion_eq
    have : usableSizeOf t = t - regionOffset := sizeSub_eq_sub (by omega) (by omega)
    omega
  obtain ⟨bottom, hbottom⟩ : ∃ x, x = regionStart b.addr + size := ⟨_, rfl⟩
  have hb' : bottom = b.addr + (b.size - t) := by
    rw [hbottom, regionStart]
    omega
  have hnew : bottom ∉ addrs (p ++ b :: q) := by
    rw [hb']
    exact h.blocks.high_not_mem hbm (by omega) (by omega)
  have hv : Views s (bottom :: addrs (p ++ b :: q)) s.typed := by
    rw [hb']
    exact h.views_cut hbm hfit hle
  have hbot : bottom ∈ bottom :: addrs (p ++ b :: q) := List.mem_cons_self
  have hcurr : b.addr ∈ bottom :: addrs (p ++ b :: q) :=
    List.mem_cons_of_mem _ (addr_mem_addrs hbm)
  have hbne : b.addr ≠ bottom := fun e => hnew (e ▸ addr_mem_addrs hbm)
  -- the size words and the `prev` ring
  obtain ⟨s₁, hs₁, hv₁⟩ := hv.setSize hbot (v := t) (by omega)
  obtain ⟨s₂, hs₂, hv₂⟩ := hv₁.setSize hcurr (v := sizeSub (s.typed.size b.addr) t)
    (sizeSub_lt _ _)
  obtain ⟨s₃, hs₃, hv₃⟩ := hv₂.setFree hbot (v := 1)
  obtain ⟨s₄, hs₄, hv₄⟩ := hv₃.setFree hcurr (v := 0)
  have hblocks := h.blocks.split heven hfit hle hlt
  rw [← hb'] at hblocks
  have hsub : addrs (p ++ b.low t heven hle :: b.high t heven hfit :: q) ⊆
      bottom :: addrs (p ++ b :: q) := by
    rw [hb']
    exact addrs_split_subset
  have hnext : (s.typed.cut b.addr bottom t).next bottom ∈ bottom :: addrs (p ++ b :: q) := by
    have hmem := hblocks.next_mem (b := b.high t heven hfit) (by simp)
    rw [Block.high_addr, ← hb', Typed.insert_next] at hmem
    exact hsub hmem
  obtain ⟨s₅, hs₅, hv₅⟩ := hv₄.insert hcurr hbot hnext
  -- the free ring, which the first five steps do not touch
  have hfrees : FreeShape ((s.typed.cut b.addr bottom t).insert b.addr bottom)
      (b.addr :: (freeAddrs q ++ freeAddrs p)) := by
    have hf := h.frees
    rw [freeAddrs_append, freeAddrs_cons_free hb] at hf
    refine FreeShape.congr (FreeShape.append_comm _ hf) rfl (fun a _ => ?_) fun a _ => ?_
    · exact Typed.cut_insert_link (by decide) (by decide)
    · exact Typed.cut_insert_link (by decide) (by decide)
  have hring : ∀ a ∈ b.addr :: (freeAddrs q ++ freeAddrs p), a ∈ addrs (p ++ b :: q) := by
    intro a ha
    apply freeAddrs_subset
    rw [freeAddrs_append, freeAddrs_cons_free hb]
    rw [List.mem_append, or_comm, ← List.mem_append]
    exact ha
  have hnring : bottom ∉ b.addr :: (freeAddrs q ++ freeAddrs p) := fun hm => hnew (hring _ hm)
  obtain ⟨s₆, hs₆, hv₆⟩ := hv₅.insertFree hcurr hbot hbne
    (List.mem_cons_of_mem _ (hring _ (hfrees.links_mem List.mem_cons_self).1))
  have hfrees₆ := hfrees.insertFree_head hnring (by omega)
  obtain ⟨hnf, hpf⟩ := hfrees₆.links_mem List.mem_cons_self
  have hsub₆ : ∀ a ∈ b.addr :: bottom :: (freeAddrs q ++ freeAddrs p),
      a ∈ bottom :: addrs (p ++ b :: q) := by
    intro a ha
    rcases List.mem_cons.mp ha with rfl | ha
    · exact hcurr
    · rcases List.mem_cons.mp ha with rfl | ha
      · exact hbot
      · exact List.mem_cons_of_mem _ (hring a (List.mem_cons_of_mem _ ha))
  obtain ⟨s₇, hs₇, hv₇⟩ := hv₆.listRemoveFree false hcurr (hsub₆ _ hpf) (hsub₆ _ hnf)
  have hr := hv₇.sameRegion (s := s) rfl rfl rfl
  refine ⟨s₇, ?_, hr, h.of_views hr hv₇ hsub ?_ ?_⟩
  · unfold Heap.take Heap.takeSplit
    have hsz : (s.typed.setSize bottom t).size b.addr = s.typed.size b.addr := by
      unfold Typed.size Typed.setSize
      rw [Typed.set_field_ne_addr hbne]
    rw [h.splitSize hbm, bind_ok, hsplit, if_neg hlarge]
    simp only [← hbottom, hs₁, hv₁.size hcurr, hsz, hs₂, hs₃, hs₄, hs₅, hs₆, hs₇, bind_ok]
    rfl
  · have hins : BlockShape (((s.typed.cut b.addr bottom t).insert b.addr bottom).insertFree
        b.addr bottom) ((p ++ [b.low t heven hle]) ++ b.high t heven hfit :: q) := by
      have hblocks' : BlockShape ((s.typed.cut b.addr bottom t).insert b.addr bottom)
          ((p ++ [b.low t heven hle]) ++ b.high t heven hfit :: q) := by simpa using hblocks
      rw [hb'] at hblocks' ⊢
      exact hblocks'.insertFree
    rw [List.append_assoc, List.singleton_append] at hins
    exact hins.listRemoveFree (b := b.low t heven hle) false
  · have hrem := hfrees₆.listRemoveFree_head false
    rw [freeAddrs_append, freeAddrs_cons_used Block.low_free, freeAddrs_cons_free Block.high_free,
      Block.high_addr, ← hb']
    exact FreeShape.append_comm (bottom :: freeAddrs q) hrem

end Take

theorem WellFormed.take_slack {s : Heap} {p q : List Block} {b : Block} {size : Nat}
    (h : WellFormed s (p ++ b :: q)) (hb : b.free = true)
    (heven : size % 2 = 0) (hmin : smallestRegion ≤ size) (hfit : size ≤ usableSizeOf b.size)
    (hslack : smallestRegion ≤ sizeSub (usableSizeOf b.size) size) :
    ∃ s' b' r, s.take b.addr size = .ok (s', regionStart b.addr) ∧ SameRegion s s' ∧
      WellFormed s' (p ++ b' :: r) ∧ b'.addr = b.addr ∧ b'.free = false ∧
      size + regionOffset ≤ b'.size ∧ b'.size ≤ b.size ∧ used r = used q ∧
      ∀ d, d ∣ b.size → d ∣ sizeSub (usableSizeOf b.size) size →
        d ∣ b'.size ∧ ∀ x ∈ r, x ∈ q ∨ d ∣ x.size := by
  have hlt := h.size_lt (b := b) (by simp)
  have hbe := b.even
  have hbf := b.fits
  have hoff : regionOffset = 16 := rfl
  have hhdr : sizeofSallocT = 32 := rfl
  have hsmall := smallestRegion_eq
  have husable : usableSizeOf b.size = b.size - regionOffset := sizeSub_eq_sub (by omega) hlt
  rw [husable] at hfit
  have hleft : sizeSub (usableSizeOf b.size) size = b.size - regionOffset - size := by
    rw [husable, sizeSub_eq_sub hfit (by omega)]
  rw [hleft] at hslack
  have hrest : usableSizeOf (sizeSub (usableSizeOf b.size) size) =
      b.size - regionOffset - size - regionOffset := by
    rw [hleft]
    exact sizeSub_eq_sub (by omega) (by omega)
  have hn := h.noAdjacent
  by_cases hsplit : b.size - regionOffset - size - regionOffset < smallestRegion
  · rw [← hrest] at hsplit
    obtain ⟨s', hs', hr, h'⟩ := h.toFormed.take_whole hb hsplit
    refine ⟨s', b.withFree false, q, hs', hr, ⟨h', ?_⟩, rfl, rfl, ?_, Nat.le_refl _, rfl,
      fun d hd _ => ⟨hd, fun x hx => .inl hx⟩⟩
    · exact hn.left.append_cons_used (hn.right.tail.cons_used rfl) rfl
    · rw [Block.withFree_size]
      omega
  · have heven' : (b.size - regionOffset - size) % 2 = 0 := by omega
    have hsize : size + regionOffset + (b.size - regionOffset - size) = b.size := by omega
    obtain ⟨s', hs', hr, h'⟩ := h.toFormed.take_split hb heven' (by omega) (by omega) hsize
    refine ⟨s', _, _, hs', hr, ⟨h', ?_⟩, Block.low_addr, Block.low_free, ?_, ?_, ?_,
      fun d hd ht => ?_⟩
    · refine hn.left.append_cons_used (NoAdjacentFree.cons_used ?_ Block.low_free) Block.low_free
      exact hn.right.cons_congr (Block.high_free.trans hb.symm)
    · rw [Block.low_size]
      omega
    · rw [Block.low_size]
      omega
    · exact used_cons_free Block.high_free
    · rw [hleft] at ht
      refine ⟨(Nat.dvd_sub hd ht), fun x hx => ?_⟩
      rcases List.mem_cons.mp hx with rfl | hx
      · exact .inr ht
      · exact .inl hx

/-! ## The first region -/

/-- The single free block of a fresh heap. -/
def freshBlock (region : Region) : Block where
  addr := region.base
  size := allocSize
  free := true
  fits := by decide
  even := by decide

@[simp] theorem freshBlock_addr (region : Region) : (freshBlock region).addr = region.base := rfl

/-- The fields `init_salloc` writes. -/
def Typed.fresh (H : Typed) (a n : Nat) : Typed :=
  ((((H.setSize a n).setFree a 1).set a .prev a).set a .nextFree a).set a .prevFree a

theorem Typed.fresh_word {H : Typed} {a n : Nat} (heven : n % 2 = 0) :
    (H.fresh a n).field a .sizeAndFree = n + 1 := by
  unfold Typed.fresh
  rw [Typed.set_field_ne_field (by decide), Typed.set_field_ne_field (by decide),
    Typed.set_field_ne_field (by decide), Typed.setFree_word, Typed.setSize_size]
  omega

theorem Typed.fresh_link {H : Typed} {a n : Nat} {f : Field} (hf : f ≠ .sizeAndFree) :
    (H.fresh a n).field a f = a := by
  cases f with
  | sizeAndFree => exact absurd rfl hf
  | prev =>
    exact (Typed.set_field_ne_field (by decide)).trans
      ((Typed.set_field_ne_field (by decide)).trans Typed.set_field_same)
  | nextFree => exact (Typed.set_field_ne_field (by decide)).trans Typed.set_field_same
  | prevFree => exact Typed.set_field_same

theorem BlockShape.fresh {H : Typed} {region : Region} (hhead : H.head = region.base)
    (htotal : H.totalSize = allocSize) :
    BlockShape (H.fresh region.base allocSize) [freshBlock region] := by
  have hword := Typed.fresh_word (H := H) (a := region.base) (n := allocSize) (by decide)
  have hhead' : (H.fresh region.base allocSize).head = region.base := hhead
  have htotal' : (H.fresh region.base allocSize).totalSize = allocSize := htotal
  refine ⟨?_, ?_, ?_⟩
  · rw [hhead', htotal']
    exact ⟨rfl, rfl⟩
  · rw [List.forall_mem_singleton]
    exact hword
  · refine (Cycle.chain_singleton _ _).mpr ⟨?_, Typed.fresh_link (by decide)⟩
    unfold Typed.next Typed.size
    rw [freshBlock_addr, hhead', htotal', hword, if_pos]
    have : allocSize % 2 = 0 := by decide
    omega

theorem FreeShape.fresh {H : Typed} {region : Region} (hlist : H.freeList = region.base) :
    FreeShape (H.fresh region.base allocSize) (freeAddrs [freshBlock region]) := by
  rw [freeAddrs_cons_free (b := freshBlock region) rfl]
  exact FreeShape.single (Nat.pos_iff_ne_zero.mp region.pos) (Typed.fresh_link (by decide))
    (Typed.fresh_link (by decide)) hlist

/-- **A fresh heap.** When `mmap` succeeds, `init_salloc` leaves one free block
that spans the region. -/
theorem Heap.initSalloc_spec (s : Heap) (region : Region) (canExtend : Bool) :
    ∃ s', s.initSalloc ⟨some region, canExtend⟩ = .ok (s', 0) ∧ s'.head = region.base ∧
      s'.totalSize = allocSize ∧ WellFormed s' [freshBlock region] := by
  have hpos := region.pos
  have huser := region.user
  have hsize := allocSize_eq
  obtain ⟨s₀, hs₀⟩ : ∃ s₀ : Heap, s₀ = { s with
    head := region.base, totalSize := allocSize, freeList := region.base,
    mem := s.mem.map region.base allocSize } := ⟨_, rfl⟩
  have hmapped : s₀.mem.Mapped region.base allocSize := by
    rw [hs₀]
    exact Memory.mapped_map_inside (by omega) (Nat.le_refl _) (Nat.le_refl _)
  have hhead : s₀.typed.head = region.base := by rw [hs₀]; rfl
  have htotal : s₀.typed.totalSize = allocSize := by rw [hs₀]; rfl
  have hlist : s₀.typed.freeList = region.base := by rw [hs₀]; rfl
  have hhdr : sizeofSallocT = 32 := rfl
  have hv : Views s₀ [region.base] s₀.typed := by
    refine Views.self ?_ ?_ ?_
    · simp
    · rw [List.forall_mem_singleton]
      exact hmapped.mono (Nat.le_refl _) (by omega)
    · rw [List.forall_mem_singleton]
      omega
  have hbm : region.base ∈ [region.base] := List.mem_singleton_self _
  obtain ⟨s₁, hs₁, hv₁⟩ := hv.setSize hbm (v := allocSize) (by decide)
  obtain ⟨s₂, hs₂, hv₂⟩ := hv₁.setFree hbm (v := 1)
  have hlt := hv.lt region.base hbm
  have hv₃ := hv₂.put hbm (f := .prev) hlt
  have hv₄ := hv₃.put hbm (f := .nextFree) hlt
  have hv₅ : Views (((s₂.put region.base .prev region.base).put region.base .nextFree
      region.base).put region.base .prevFree region.base) [region.base]
      (s₀.typed.fresh region.base allocSize) := hv₄.put hbm (f := .prevFree) hlt
  refine ⟨_, ?_, hv₅.head.trans hhead, hv₅.totalSize.trans htotal, ?_, List.IsChain.singleton _⟩
  · unfold Heap.initSalloc
    simp only [← hs₀, hs₁, hs₂, hv₂.store hbm, hv₃.store hbm, hv₄.store hbm, bind_ok]
    rfl
  · refine hv₅.formed ?_ ?_ ?_ (by simp [freshBlock]) (BlockShape.fresh hhead htotal)
      (FreeShape.fresh hlist)
    · exact hhead ▸ hpos
    · exact lt_of_eq_of_lt (congrArg₂ (· + ·) hhead htotal) (by omega)
    · intro i hi
      rw [show (s₀.typed.fresh region.base allocSize).head = region.base from hhead]
      exact hmapped i (lt_of_lt_of_eq hi htotal)

end Chronos.Salloc
