import Chronos.Salloc.Growth

/-!
# Room for a request

The rounding of a request of `n` bytes adds `n % SALLOC_SMALLEST_REGION`. Unless that
wraps around, the block handed out has at least `n` usable bytes, also when it fits
tightly and the split damages the next header, or when the heap has just grown.
-/

namespace Chronos.Salloc

open Chronos.Lib Chronos.Lib.Ring

/-! ## A region that is big enough -/

section Take

variable {s s' : Heap} {p q bs : List Block} {c : Block} {curr b n size S ptr : Nat}

theorem Heap.sizeAt_le_cell : s.sizeAt curr ≤ s.cell curr := Nat.sub_le _ _

theorem Heap.usableSize_eq (h : s.mem.Mapped curr 8) :
    s.usableSize curr = .ok (usableSizeOf (s.sizeAt curr)) := by
  have hload : s.load curr .sizeAndFree = .ok (s.cell curr) := by
    unfold Heap.load Heap.cell
    exact if_pos h
  rw [Heap.usableSize, Heap.size, hload]
  rfl

/-- A region that is big enough is handed out whole, or split. -/
theorem Heap.take_ok (hS : s.sizeAt curr = S) (hfit : size + regionOffset ≤ S)
    (h : s.take curr size = .ok (s', ptr)) :
    (usableSizeOf (S - regionOffset - size) < smallestRegion ∧
      s.takeWhole curr = .ok (s', ptr)) ∨
    (¬usableSizeOf (S - regionOffset - size) < smallestRegion ∧
      s.takeSplit curr size (S - regionOffset - size) = .ok (s', ptr)) := by
  have hSlt : S < 2 ^ 64 := hS ▸ Heap.sizeAt_le_cell.trans_lt Heap.cell_lt
  obtain ⟨t, ht, h⟩ := bind_eq_ok.mp h
  have ht : t = S - regionOffset - size := by
    obtain ⟨u, hu, ht⟩ := bind_eq_ok.mp ht
    obtain ⟨n, hn, hu⟩ := bind_eq_ok.mp hu
    rw [← Except.ok.inj ht, ← Except.ok.inj hu, Heap.size_ok hn, hS, usableSizeOf,
      sizeSub_eq_sub (by omega) hSlt, sizeSub_eq_sub (by omega) (by omega)]
  subst ht
  split at h
  · rename_i hsmall
    exact .inl ⟨hsmall, h⟩
  · rename_i hlarge
    exact .inr ⟨hlarge, h⟩

/-- **A region that is big enough** keeps the size asked for, header included, whether it
is handed out whole or split. -/
theorem Heap.take_size (hS : s.sizeAt curr = S) (hS' : sizeofSallocT ≤ S)
    (hmin : smallestRegion ≤ size) (heven : size % 2 = 0) (hfit : size + regionOffset ≤ S)
    (hsplits : ∀ b, curr + sizeofSallocT ≤ b → b ≤ curr + S → s.Splits curr b)
    (h : s.take curr size = .ok (s', ptr)) :
    ptr = regionStart curr ∧ s'.mem.mapped = s.mem.mapped ∧
      size + regionOffset ≤ s'.sizeAt curr := by
  have hoff : regionOffset = 16 := rfl
  have hhdr : sizeofSallocT = 32 := rfl
  have hsmall := smallestRegion_eq
  have hSlt : S < 2 ^ 64 := hS ▸ Heap.sizeAt_le_cell.trans_lt Heap.cell_lt
  have hSeven : S % 2 = 0 := by
    rw [← hS, Heap.sizeAt]
    omega
  rcases Heap.take_ok hS hfit h with ⟨-, h⟩ | ⟨-, h⟩
  · have hself := hsplits (curr + S) (by omega) le_rfl
    obtain ⟨hnf, hpf⟩ : Heap.Clear (s.cell (curr + 16)) curr ∧
        Heap.Clear (s.cell (curr + 24)) curr := by
      have hlinks := hself.links
      unfold Heap.Outside at hlinks
      unfold Heap.Clear
      omega
    obtain ⟨hptr, hchanges, hword⟩ := Heap.takeWhole_ok hnf hpf h
    refine ⟨hptr, hchanges.mapped, ?_⟩
    rw [Heap.sizeAt, hword, hS]
    omega
  · obtain ⟨hptr, -, hword, s₁, pf, -, h₁, -, h₂⟩ := Heap.takeSplit_ok
      (b := regionStart curr + size) rfl (hsplits _ (by unfold regionStart; omega)
        (by unfold regionStart; omega)) (by omega) h
    refine ⟨hptr, h₂.mapped.trans h₁.mapped, ?_⟩
    rw [hS, sizeSub_eq_sub (by omega) hSlt] at hword
    rw [Heap.sizeAt, hword]
    omega

/-- A free block of a well-formed heap may be split anywhere behind its header. -/
theorem WellFormed.splits (h : WellFormed s (p ++ c :: q)) (hfree : c.free = true)
    (hlo : c.addr + sizeofSallocT ≤ b) (hhi : b ≤ c.addr + c.size) : s.Splits c.addr b := by
  have hcm : c ∈ p ++ c :: q := by simp
  have hmem : c.addr ∈ freeAddrs (p ++ c :: q) := mem_freeAddrs.mpr ⟨c, hcm, hfree, rfl⟩
  have hbounds := h.block_bounds hcm
  have hspace := h.space
  obtain ⟨mid, hp, hst, hq⟩ := Tiles.append_iff.mp h.blocks.tiles
  -- the next block is in use, so that the free blocks behind lie beyond its header
  have hout : ∀ d ∈ p ++ c :: q, d.free = true → d ≠ c → Heap.Outside c.addr b d.addr := by
    intro d hd hdf hne
    have hdfits := d.fits
    rcases List.mem_append.mp hd with hd | hd
    · have := (hp.bounds hd).2
      exact .inl (by omega)
    · have hd := (List.mem_cons.mp hd).resolve_left hne
      right
      cases q with
      | nil => cases hd
      | cons n q =>
        have hused : n.free ≠ true := fun hn =>
          (List.isChain_cons_cons.mp h.noAdjacent.right).1 ⟨hfree, hn⟩
        have hdq : d ∈ q := (List.mem_cons.mp hd).resolve_left fun e => hused (e ▸ hdf)
        have := (hq.2.bounds hdq).1
        have := n.fits
        omega
  have hlink : ∀ x ∈ freeAddrs (p ++ c :: q), x = c.addr ∨ Heap.Outside c.addr b x := by
    intro x hx
    obtain ⟨d, hd, hdf, rfl⟩ := mem_freeAddrs.mp hx
    by_cases hne : d = c
    · exact .inl (congrArg Block.addr hne)
    · exact .inr (hout d hd hdf hne)
  obtain ⟨nf, hnf, hnext⟩ := chain_exists_next h.frees.ring hmem
  obtain ⟨pf, hpf, hprev⟩ := chain_exists_prev h.frees.ring hmem
  have hnfeq : s.cell (c.addr + 16) = nf := (s.typed_field_eq c.addr .nextFree).symm.trans hnext.1
  have hpfeq : s.cell (c.addr + 24) = pf := (s.typed_field_eq c.addr .prevFree).symm.trans hprev.2
  refine ⟨hlo, ?_, ?_, .inl (Nat.mod_eq_of_lt (by omega))⟩
  · rw [hnfeq, hpfeq]
    by_cases halone : nf = c.addr
    · subst halone
      exact .inl ⟨rfl, hprev.2.symm.trans hnext.2⟩
    · have hpfne : pf ≠ c.addr := by
        rintro rfl
        exact halone (hnext.1.symm.trans hprev.1)
      exact .inr ⟨(hlink nf hnf).resolve_left halone, (hlink pf hpf).resolve_left hpfne⟩
  · cases p with
    | nil => exact .inl (hst.trans hp.symm).symm
    | cons x p =>
      have hx := (hp.bounds (List.mem_cons_self (a := x))).2
      have := x.fits
      have hxhead : x.addr = s.head := hp.1
      exact .inr (by omega)

end Take

/-! ## The search -/

section Search

variable {s s' : Heap} {os : Os} {size steps steps' curr ptr : Nat} {r : Option Nat}
  {grow : Heap → Except Fault (Heap × Nat)}

theorem Heap.attempt_ok (hhead : s.head ≠ 0) (h : s.attempt os steps size grow = .ok (s', ptr)) :
    ∃ r, s.firstFit steps size = .ok r ∧
      (match r with
        | none => grow s
        | some curr => s.take curr size) = .ok (s', ptr) := by
  unfold Heap.attempt Heap.ready at h
  rw [if_neg hhead, bind_ok] at h
  simp only [ne_eq, not_true_eq_false, if_false] at h
  exact bind_eq_ok.mp h

/-- Where `init_salloc` has succeeded the call goes on as on any heap. -/
theorem Heap.salloc_of_ready {s₀ : Heap} {n : Nat} (hready : s.ready os = .ok (s₀, 0))
    (hhead : s₀.head ≠ 0) : s.salloc os steps n = s₀.salloc os steps n := by
  have hready₀ : s₀.ready os = .ok (s₀, 0) := if_neg hhead
  unfold Heap.salloc Heap._salloc Heap.attempt
  rw [hready, hready₀]

/-- A search that ends makes no use of further steps. -/
theorem Heap.search_mono (hsteps : steps ≤ steps') (h : s.search size steps curr = .ok r) :
    s.search size steps' curr = .ok r := by
  induction steps generalizing steps' curr with
  | zero => cases h
  | succ steps ih =>
    obtain ⟨steps', rfl⟩ : ∃ k, steps' = k + 1 := ⟨steps' - 1, by omega⟩
    obtain ⟨u, hu, h⟩ := bind_eq_ok.mp h
    unfold Heap.search
    rw [hu, bind_ok]
    by_cases hfit : size ≤ u
    · rw [if_pos hfit] at h ⊢
      exact h
    · rw [if_neg hfit] at h ⊢
      obtain ⟨next, hnext, h⟩ := bind_eq_ok.mp h
      rw [hnext, bind_ok]
      by_cases hback : next = s.freeList
      · rw [if_pos hback] at h ⊢
        exact h
      · rw [if_neg hback] at h ⊢
        exact ih (by omega) h

theorem Heap.firstFit_mono (hsteps : steps ≤ steps') (h : s.firstFit steps size = .ok r) :
    s.firstFit steps' size = .ok r := by
  unfold Heap.firstFit at h ⊢
  by_cases hnone : s.freeList = 0
  · rw [if_pos hnone] at h ⊢
    exact h
  · rw [if_neg hnone] at h ⊢
    exact Heap.search_mono hsteps h

end Search

/-! ## The heap after growth -/

section Grown

variable {s s₁ s' : Heap} {os : Os} {size steps ptr : Nat}

/-- The new region is split, or handed out whole, like any other. -/
theorem Heap.Grown.splits {b : Nat} (h : s.Grown s₁) (hspace : s.head + s.totalSize < 2 ^ 64)
    (htotal : s.totalSize = 0 ∨ sizeofSallocT ≤ s.totalSize)
    (hlo : s.head + s.totalSize + sizeofSallocT ≤ b)
    (hhi : b ≤ s.head + s.totalSize + allocSize) : s₁.Splits (s.head + s.totalSize) b := by
  have hsize := allocSize_eq
  have hhdr : sizeofSallocT = 32 := rfl
  refine ⟨hlo, .inl ⟨h.nextFree, h.prevFree⟩, ?_, ?_⟩
  · rw [h.head]
    omega
  · omega

/-- A request on a heap that has grown is served from the new region, or not at all. -/
theorem Heap.Grown.salloc (h : s.Grown s₁) (hpos : 0 < s.head)
    (hret : _salloc os steps size 0 s₁ = .ok (s', ptr)) :
    (size ≤ usableSizeOf allocSize ∧ s₁.take (s.head + s.totalSize) size = .ok (s', ptr)) ∨
      (s' = s₁ ∧ ptr = 0) := by
  obtain ⟨new, hnew⟩ : ∃ a, a = s.head + s.totalSize := ⟨_, rfl⟩
  have hlist : s₁.freeList = new := h.freeList.trans hnew.symm
  have hmapped := h.mapped
  have hsize := allocSize_eq
  have hin : new + Field.nextFree.offset + 8 ≤ new + allocSize := by
    rw [Field.offset, hsize]
    omega
  have husable : s₁.usableSize new = .ok (usableSizeOf allocSize) := by
    rw [hnew, Heap.usableSize_eq (hmapped.mono le_rfl (by omega)), h.sizeAt_eq]
  have hload : s₁.load new .nextFree = .ok new := by
    have hcell := h.nextFree
    unfold Heap.cell at hcell
    rw [← hnew] at hmapped hcell
    rw [Heap.load, if_pos (hmapped.mono (Nat.le_add_right _ _) hin)]
    exact congrArg Except.ok hcell
  rw [← hnew]
  have hhead : s₁.head ≠ 0 := by
    rw [h.head]
    exact hpos.ne'
  unfold Heap._salloc at hret
  obtain ⟨r, hfirst, hret⟩ := Heap.attempt_ok hhead hret
  unfold Heap.firstFit at hfirst
  rw [hlist, if_neg (by omega)] at hfirst
  cases steps with
  | zero => cases hfirst
  | succ steps =>
    unfold Heap.search at hfirst
    rw [husable, bind_ok] at hfirst
    by_cases hfit : size ≤ usableSizeOf allocSize
    · rw [if_pos hfit] at hfirst
      obtain rfl := Except.ok.inj hfirst
      exact .inl ⟨hfit, hret⟩
    · rw [if_neg hfit, hload, bind_ok, if_pos hlist.symm] at hfirst
      obtain rfl := Except.ok.inj hfirst
      obtain ⟨rfl, rfl⟩ := Prod.mk.inj (Except.ok.inj hret)
      exact .inr ⟨rfl, rfl⟩

end Grown

/-! ## Every request -/

/-- A request for `n` bytes is not served at all, or with `n` usable bytes. -/
def Heap.HasRoom (s : Heap) (os : Os) (steps n : Nat) : Prop :=
  ∀ s' ptr, s.salloc os steps n = .ok (s', ptr) → ptr ≠ 0 →
    ∃ u, s'.usableSize (ptr - regionOffset) = .ok u ∧ n ≤ u

section Room

variable {s s₁ s' : Heap} {bs : List Block} {os : Os} {steps n size ptr curr S : Nat}

/-- The room in a region that was big enough. -/
theorem Heap.take_room (hmapped : s.mem.Mapped curr 8) (hS : s.sizeAt curr = S)
    (hS' : sizeofSallocT ≤ S) (hmin : smallestRegion ≤ size) (heven : size % 2 = 0)
    (hfit : size ≤ usableSizeOf S)
    (hsplits : ∀ b, curr + sizeofSallocT ≤ b → b ≤ curr + S → s.Splits curr b)
    (h : s.take curr size = .ok (s', ptr)) :
    ∃ u, s'.usableSize (ptr - regionOffset) = .ok u ∧ size ≤ u := by
  have hlt : ∀ s : Heap, s.sizeAt curr < 2 ^ 64 := fun s =>
    Heap.sizeAt_le_cell.trans_lt Heap.cell_lt
  have hoff : regionOffset ≤ sizeofSallocT := by decide
  have husable : usableSizeOf S = S - regionOffset :=
    sizeSub_eq_sub (hoff.trans hS') (hS ▸ hlt s)
  have hpos : 0 < smallestRegion := by decide
  obtain ⟨rfl, hsame, hroom⟩ := Heap.take_size hS hS' hmin heven (by omega) hsplits h
  have hcurr : regionStart curr - regionOffset = curr := Nat.add_sub_cancel ..
  refine ⟨usableSizeOf (s'.sizeAt curr), ?_, ?_⟩
  · rw [hcurr]
    refine Heap.usableSize_eq ?_
    unfold Memory.Mapped at hmapped ⊢
    rw [hsame]
    exact hmapped
  · rw [usableSizeOf, sizeSub_eq_sub (by omega) (hlt s')]
    omega

/-- A region is empty, or it has room for a header. -/
theorem Formed.totalSize_cases (h : Formed s bs) :
    s.totalSize = 0 ∨ sizeofSallocT ≤ s.totalSize := by
  cases bs with
  | nil =>
    have hnil : s.head = s.head + s.totalSize := h.blocks.tiles
    omega
  | cons b bs =>
    have hbounds := h.block_bounds (b := b) (by simp)
    have hfits := b.fits
    omega

/-- Where no free block is big enough the heap stays as it is, or has grown. -/
theorem WellFormed.salloc_grow (h : WellFormed s bs)
    (hnone : s.firstFit steps (alignRequest n) = .ok none)
    (hret : s.salloc os steps n = .ok (s', ptr)) :
    (s' = s ∧ ptr = 0) ∨ ∃ s₁, s.Grown s₁ ∧
      ((alignRequest n ≤ usableSizeOf allocSize ∧
        s₁.take (s.head + s.totalSize) (alignRequest n) = .ok (s', ptr)) ∨
      (s' = s₁ ∧ ptr = 0)) := by
  unfold Heap.salloc Heap._salloc at hret
  obtain ⟨r, hfirst, hret⟩ := Heap.attempt_ok h.pos.ne' hret
  obtain rfl := Except.ok.inj (hfirst.symm.trans hnone)
  obtain ⟨⟨s₁, failed⟩, hgrow, hret⟩ := bind_eq_ok.mp hret
  by_cases hos : os.canExtend = true
  · right
    by_cases hfree : freeAddrs bs = []
    · obtain ⟨rfl, hgrown⟩ :=
        Heap.increaseHeapSize_ok h.pos h.space (h.freeList_eq_zero hfree) hos hgrow
      exact ⟨s₁, hgrown, hgrown.salloc h.pos hret⟩
    · rw [h.increaseHeapSize_segv hos hfree] at hgrow
      cases hgrow
  · have hrefused : s.increaseHeapSize os = .ok (s, -1) := if_pos (by simpa using hos)
    obtain ⟨rfl, rfl⟩ := Prod.mk.inj (Except.ok.inj (hrefused.symm.trans hgrow))
    obtain ⟨rfl, rfl⟩ := Prod.mk.inj (Except.ok.inj hret)
    exact .inl ⟨rfl, rfl⟩

/-- **The room that was asked for.** On a well-formed heap a request whose rounding does
not wrap around is never served with less. -/
theorem WellFormed.hasRoom (h : WellFormed s bs) (hwrap : n + n % smallestRegion < 2 ^ 64) :
    s.HasRoom os steps n := by
  intro s' ptr hret hptr
  have hmin := smallestRegion_le_alignRequest hwrap
  have heven := alignRequest_even hwrap
  suffices ∃ u, s'.usableSize (ptr - regionOffset) = .ok u ∧ alignRequest n ≤ u by
    obtain ⟨u, hu, hle⟩ := this
    exact ⟨u, hu, (le_alignRequest hwrap).trans hle⟩
  have hattempt := hret
  unfold Heap.salloc Heap._salloc at hattempt
  obtain ⟨r, hfirst, htake⟩ := Heap.attempt_ok h.pos.ne' hattempt
  have hmore := Heap.firstFit_mono (Nat.le_max_left steps bs.length) hfirst
  rcases h.firstFit (Nat.le_max_right steps bs.length) (alignRequest n) with
    ⟨b, hb, hbf, hfit, hsome⟩ | ⟨hnone, -⟩
  · obtain rfl := Except.ok.inj (hmore.symm.trans hsome)
    obtain ⟨p, q, rfl⟩ := List.append_of_mem hb
    have hbounds := h.block_bounds hb
    have hfits := b.fits
    have hhdr : sizeofSallocT = 32 := rfl
    exact Heap.take_room (h.mapped.mono hbounds.1 (by omega)) (h.sizeAt_eq hb) b.fits hmin heven
      hfit (fun _ => h.splits hbf) htake
  · obtain rfl := Except.ok.inj (hmore.symm.trans hnone)
    obtain ⟨-, hnull⟩ | ⟨s₁, hgrown, ⟨hfit, htake⟩ | ⟨-, hnull⟩⟩ := h.salloc_grow hfirst hret
    · exact absurd hnull hptr
    · have hsmall : s.head + s.totalSize + 8 ≤ s.head + s.totalSize + allocSize :=
        Nat.add_le_add_left (by decide) _
      exact Heap.take_room (hgrown.mapped.mono le_rfl hsmall) hgrown.sizeAt_eq (by decide)
        hmin heven hfit (fun _ => hgrown.splits h.space h.totalSize_cases) htake
    · exact absurd hnull hptr

/-! ## Requests that wrap around -/

/-- A request close to the end of `size_t` is rounded to next to nothing. -/
theorem alignRequest_wrap (hlt : n < 2 ^ 64) (hwrap : 2 ^ 64 ≤ n + n % smallestRegion) :
    alignRequest n + 2 ≤ smallestRegion ∧ 2 ^ 64 < n + smallestRegion := by
  unfold alignRequest
  rw [smallestRegion_eq] at hwrap ⊢
  rw [if_neg (by omega), if_pos (by omega)]
  omega

/-- A heap whose only free block is one of 46 bytes. -/
theorem exists_smallFree : ∃ s b rest, WellFormed s [b, rest] ∧ b.free = true ∧
    rest.free = false ∧ b.size = 46 := by
  obtain ⟨s₀, -, hhead, -, h₀⟩ := Heap.initSalloc_spec ⟨0, 0, 0, .empty⟩
    ⟨4096, by decide, by decide, by decide⟩ false
  obtain ⟨s₁, -, -, h₁⟩ := h₀.toFormed.take_split (p := []) (q := [])
    (t := allocSize - 46) rfl (by decide) (by decide) (by decide)
    (by decide : 30 + regionOffset + (allocSize - 46) = allocSize)
  obtain ⟨b, rest, hb, hrest, hsize, hleft, h₁⟩ : ∃ b rest : Block, b.free = false ∧
    rest.free = true ∧ b.size = 46 ∧ rest.size = allocSize - 46 ∧ Formed s₁ ([b] ++ [rest]) :=
    ⟨_, _, rfl, rfl, rfl, rfl, h₁⟩
  have hsmall : usableSizeOf (sizeSub (usableSizeOf rest.size) (allocSize - 78)) <
      smallestRegion := by
    rw [hleft]
    decide
  obtain ⟨s₂, -, -, h₂⟩ := h₁.take_whole hrest hsmall
  obtain ⟨s₃, -, -, h₃⟩ := h₂.sfree (p := []) (q := [rest.withFree false]) hb le_rfl
  rw [release_alone (by simp) (by simp)] at h₃
  exact ⟨s₃, b.withFree true, rest.withFree false,
    ⟨h₃, NoAdjacentFree.append_cons_used (List.IsChain.singleton _) (List.IsChain.singleton _) rfl⟩,
    rfl, rfl, hsize⟩

/-- The small block is handed out for a request that wraps around. -/
theorem WellFormed.not_hasRoom {b rest : Block} (h : WellFormed s [b, rest]) (hb : b.free = true)
    (hrest : rest.free = false) (hsize : b.size = 46) (hlt : n < 2 ^ 64)
    (hwrap : 2 ^ 64 ≤ n + n % smallestRegion) : ¬s.HasRoom os 2 n := by
  obtain ⟨hsmall, hlarge⟩ := alignRequest_wrap hlt hwrap
  rw [smallestRegion_eq] at hsmall hlarge
  have husable : usableSizeOf b.size = 30 := by
    rw [hsize]
    decide
  have htwo : [b, rest].length ≤ 2 := le_rfl
  obtain ⟨d, hd, hdf, -, hfirst⟩ | ⟨-, hnone⟩ := h.firstFit htwo (alignRequest n)
  · obtain rfl : d = b := by
      rcases List.mem_cons.mp hd with rfl | hd
      · rfl
      · rw [List.mem_singleton.mp hd, hrest] at hdf
        cases hdf
    have hoff : regionOffset = 16 := rfl
    have hleft : usableSizeOf (sizeSub (usableSizeOf d.size) (alignRequest n)) <
        smallestRegion := by
      have ht : sizeSub 30 (alignRequest n) = 30 - alignRequest n :=
        sizeSub_eq_sub (by omega) (by decide)
      have ht' : usableSizeOf (30 - alignRequest n) = 30 - alignRequest n - regionOffset :=
        sizeSub_eq_sub (by omega) (by omega)
      rw [husable, ht, ht', smallestRegion_eq]
      omega
    obtain ⟨s', htake, -, h'⟩ := h.toFormed.take_whole (p := []) hb hleft
    have hready : s.ready os = .ok (s, 0) := if_neg h.pos.ne'
    have hret := (Heap.salloc_of_fit hready hfirst).trans htake
    have hcurr : regionStart d.addr - regionOffset = d.addr := Nat.add_sub_cancel ..
    intro hroom
    obtain ⟨u, hu, hle⟩ := hroom s' _ hret (by unfold regionStart; omega)
    rw [hcurr, Heap.usableSize, h'.views.size (by simp), bind_ok] at hu
    obtain rfl := Except.ok.inj hu
    have hd' := h'.blocks.size_eq (b := d.withFree false) (by simp)
    rw [Block.withFree_addr, Block.withFree_size] at hd'
    rw [hd', husable] at hle
    omega
  · have := hnone b (by simp) hb
    omega

/-- **When `salloc` hands out what was asked for.** Every block that a request for `n`
bytes is served with has `n` usable bytes, whatever the heap and the system, exactly if
the rounding does not wrap around. -/
theorem hasRoom_iff (hlt : n < 2 ^ 64) :
    (∀ (s : Heap) (bs : List Block) (os : Os) (steps : Nat), WellFormed s bs →
      s.HasRoom os steps n) ↔ n + n % smallestRegion < 2 ^ 64 := by
  constructor
  · intro h
    obtain ⟨s, b, rest, hwf, hb, hrest, hsize⟩ := exists_smallFree
    by_contra hwrap
    exact hwf.not_hasRoom hb hrest hsize hlt (Nat.not_lt.mp hwrap)
      (h s _ ⟨none, false⟩ 2 hwf)
  · intro hwrap s bs os steps h
    exact h.hasRoom hwrap

theorem hasRoom_iff_hundred :
    (∀ (s : Heap) (bs : List Block) (os : Os) (steps : Nat), WellFormed s bs →
      s.HasRoom os steps 100) ↔ 100 + 100 % smallestRegion < 2 ^ 64 :=
  hasRoom_iff (by decide)

/-- A request for -1 bytes is served with 30. -/
theorem not_hasRoom_negative : ∃ s bs os steps, WellFormed s bs ∧
    ¬s.HasRoom os steps (2 ^ 64 - 1) := by
  obtain ⟨s, b, rest, h, hb, hrest, hsize⟩ := exists_smallFree
  exact ⟨s, _, ⟨none, false⟩, 2, h, h.not_hasRoom hb hrest hsize (by decide) (by decide)⟩

end Room

end Chronos.Salloc
