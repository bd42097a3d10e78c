import Chronos.Lib.Fold
import Chronos.Salloc.Run

/-!
# What a release gives back

The bytes of a released block belong to a free block, and nothing else changes hands.
When every block in use has been released, in whatever order, the heap is one free block.
-/

namespace Chronos.Salloc

open Chronos.Lib

/-- The bytes of the free blocks, headers included. -/
def freeBytes (bs : List Block) : Nat := ((freeBlocks bs).map Block.size).sum

section FreeBytes

variable {p q bs : List Block} {b : Block}

@[simp] theorem freeBytes_nil : freeBytes [] = 0 := rfl

@[simp] theorem freeBytes_append : freeBytes (p ++ q) = freeBytes p + freeBytes q := by
  simp [freeBytes, freeBlocks]

theorem freeBytes_cons_free (h : b.free = true) : freeBytes (b :: bs) = b.size + freeBytes bs := by
  simp [freeBytes, freeBlocks, h]

theorem freeBytes_cons_used (h : b.free = false) : freeBytes (b :: bs) = freeBytes bs := by
  simp [freeBytes, freeBlocks, h]

theorem absorbNext_freeBytes (h : b.free = true) :
    freeBytes ((absorbNext b q).1 :: (absorbNext b q).2) = b.size + freeBytes q := by
  cases q with
  | nil => exact freeBytes_cons_free h
  | cons n q =>
    cases hn : n.free with
    | true =>
      rw [absorbNext_cons_free hn, freeBytes_cons_free (b := b.merge n) h, freeBytes_cons_free hn,
        Block.merge_size, Nat.add_assoc]
    | false => rw [absorbNext_cons_used hn, freeBytes_cons_free h]

theorem absorbPrev_freeBytes (h : b.free = true) :
    freeBytes (absorbPrev p b q) = freeBytes p + freeBytes (b :: q) := by
  rcases List.eq_nil_or_concat' p with rfl | ⟨p, x, rfl⟩
  · rw [absorbPrev_nil, freeBytes_nil, Nat.zero_add]
  · cases hx : x.free with
    | true =>
      rw [absorbPrev_concat_free hx, freeBytes_append, freeBytes_append,
        freeBytes_cons_free (b := x.merge b) hx, freeBytes_cons_free hx, freeBytes_cons_free h,
        freeBytes_nil, Block.merge_size]
      omega
    | false => rw [absorbPrev_concat_used hx, freeBytes_append]

/-- A release gains the bytes of the block. -/
theorem release_freeBytes (hb : b.free = false) :
    freeBytes (release p b q) = freeBytes (p ++ b :: q) + b.size := by
  have hfree : (b.withFree true).free = true := rfl
  unfold release
  rw [absorbPrev_freeBytes (absorbNext_free hfree), absorbNext_freeBytes hfree, freeBytes_append,
    freeBytes_cons_used hb, Block.withFree_size]
  omega

end FreeBytes

/-! ## The free block around a released one -/

/-- The bytes of `b` belong to `d`. -/
def Block.Within (b d : Block) : Prop := d.addr ≤ b.addr ∧ b.addr + b.size ≤ d.addr + d.size

section Within

variable {p q : List Block} {b x : Block} {lo hi : Nat}

theorem absorbNext_within : b.Within (absorbNext b q).1 := by
  refine ⟨absorbNext_addr.le, ?_⟩
  cases q with
  | nil => exact le_rfl
  | cons n q =>
    cases hn : n.free with
    | true =>
      rw [absorbNext_cons_free hn, Block.merge_addr, Block.merge_size]
      omega
    | false => rw [absorbNext_cons_used hn]

theorem absorbPrev_within (hb : b.free = true)
    (hend : ∀ x ∈ p.getLast?, x.addr + x.size = b.addr) :
    ∃ d ∈ absorbPrev p b q, d.free = true ∧ b.Within d := by
  rcases List.eq_nil_or_concat' p with rfl | ⟨p, x, rfl⟩
  · exact ⟨b, by simp [absorbPrev_nil], hb, le_rfl, le_rfl⟩
  · cases hx : x.free with
    | true =>
      have hxb := hend x (by simp)
      refine ⟨x.merge b, by simp [absorbPrev_concat_free hx], hx, ?_⟩
      rw [Block.Within, Block.merge_addr, Block.merge_size]
      omega
    | false => exact ⟨b, by simp [absorbPrev_concat_used hx], hb, le_rfl, le_rfl⟩

/-- Of two neighbours the first ends where the second begins. -/
theorem tiles_concat_cons (h : Tiles Block.addr Block.size lo hi (p ++ b :: q)) :
    ∀ x ∈ p.getLast?, x.addr + x.size = b.addr := by
  intro x hx
  obtain ⟨p, rfl⟩ : ∃ p', p = p' ++ [x] := List.getLast?_eq_some_iff.mp hx
  rw [List.append_assoc, List.singleton_append, Tiles.append_iff] at h
  obtain ⟨mid, -, h⟩ := h
  simp only [Tiles.cons_iff] at h
  rw [h.1]
  exact h.2.1.symm

/-- Its bytes are in a free block after the release. -/
theorem release_within (h : Tiles Block.addr Block.size lo hi (p ++ b :: q)) :
    ∃ d ∈ release p b q, d.free = true ∧ b.Within d := by
  have hend : ∀ x ∈ p.getLast?, x.addr + x.size = (absorbNext (b.withFree true) q).1.addr := by
    rw [absorbNext_addr]
    exact fun x hx => tiles_concat_cons h x hx
  obtain ⟨d, hd, hfree, hlo, hhi⟩ := absorbPrev_within
    (q := (absorbNext (b.withFree true) q).2) (absorbNext_free rfl) hend
  have hin := absorbNext_within (b := b.withFree true) (q := q)
  exact ⟨d, hd, hfree, hlo.trans hin.1, hin.2.trans hhi⟩

end Within

/-! ## A release -/

section Sfree

variable {s : Heap} {p q bs : List Block} {b : Block} {steps steps' : Nat} {ptrs : List Nat}

/-- More steps than there are blocks change nothing. -/
theorem Formed.sfree_congr (h : Formed s (p ++ b :: q)) (hb : b.free = false)
    (hsteps : (p ++ b :: q).length ≤ steps) (hsteps' : (p ++ b :: q).length ≤ steps') :
    s.sfree steps (regionStart b.addr) = s.sfree steps' (regionStart b.addr) := by
  have hptr : regionStart b.addr - regionOffset = b.addr := Nat.add_sub_cancel ..
  have hbm : b ∈ p ++ b :: q := by simp
  unfold Heap.sfree
  simp only [hptr, h.views.load (addr_mem_addrs hbm), h.searchBack hb hsteps,
    h.searchBack hb hsteps', bind, Except.bind]

/-- The blocks in use besides one of them. -/
theorem Formed.mem_used_iff (h : Formed s (p ++ b :: q)) (c : Block) :
    c ∈ used p ++ used q ↔ c ∈ used (p ++ b :: q) ∧ c ≠ b := by
  have hne : c ∈ p ∨ c ∈ q → c ≠ b := fun hc he => h.blocks.addr_ne hc (he ▸ rfl)
  simp only [List.mem_append, mem_used, List.mem_cons]
  tauto

/-- The release of a block in use, whatever number of steps there is beyond its blocks. -/
theorem WellFormed.sfree_of_used (h : WellFormed s bs) (hb : b ∈ used bs) :
    ∃ s' p q, bs = p ++ b :: q ∧
      (∀ steps, bs.length ≤ steps → s.sfree steps (regionStart b.addr) = .ok s') ∧
      SameRegion s s' ∧ WellFormed s' (release p b q) := by
  obtain ⟨hmem, hfree⟩ := mem_used.mp hb
  obtain ⟨p, q, rfl⟩ := List.append_of_mem hmem
  obtain ⟨s', hs', hr, h'⟩ := h.sfree hfree le_rfl
  refine ⟨s', p, q, rfl, fun steps hsteps => ?_, hr, h'⟩
  rw [← hs']
  exact h.sfree_congr hfree hsteps le_rfl

/-- **`sfree` gives back exactly one block**: the heap stays well-formed, the bytes of the
block belong to a free one, the other blocks in use are kept, and the free bytes grow by
the size of the block. -/
theorem sfree_releases (h : WellFormed s bs) (hb : b ∈ used bs) :
    ∃ s' bs', (∀ steps, bs.length ≤ steps → s.sfree steps (regionStart b.addr) = .ok s') ∧
      WellFormed s' bs' ∧ s'.head = s.head ∧ s'.totalSize = s.totalSize ∧
      (∃ d ∈ bs', d.free = true ∧ b.Within d) ∧ (∀ c, c ∈ used bs' ↔ c ∈ used bs ∧ c ≠ b) ∧
      freeBytes bs' = freeBytes bs + b.size ∧ NoAdjacentFree bs' := by
  have hfree := (mem_used.mp hb).2
  obtain ⟨s', p, q, rfl, hs', hr, h'⟩ := h.sfree_of_used hb
  refine ⟨s', release p b q, hs', h', hr.head, hr.totalSize, ?_, ?_, ?_, h'.noAdjacent⟩
  · exact release_within h.blocks.tiles
  · intro c
    rw [release_used]
    exact h.mem_used_iff c
  · exact release_freeBytes hfree

end Sfree

/-- Of three blocks in use the one in the middle is released. -/
theorem sfree_releases_first : ∃ bs b s' bs', WellFormed Config.threeInUse.heap bs ∧
    (used bs).length = 3 ∧ b ∈ used bs ∧ regionStart b.addr = 4144 ∧
    (∀ steps, bs.length ≤ steps → Config.threeInUse.heap.sfree steps 4144 = .ok s') ∧
      WellFormed s' bs' ∧ s'.head = Config.threeInUse.heap.head ∧
      s'.totalSize = Config.threeInUse.heap.totalSize ∧
      (∃ d ∈ bs', d.free = true ∧ b.Within d) ∧ (∀ c, c ∈ used bs' ↔ c ∈ used bs ∧ c ≠ b) ∧
      freeBytes bs' = freeBytes bs + b.size ∧ NoAdjacentFree bs' := by
  obtain ⟨bs, h⟩ := Config.threeInUse_held
  obtain ⟨b, hb, hptr, -⟩ := h.block (a := ⟨4144, 32⟩) (by rw [Config.threeInUse_live]; decide)
  have hlength := h.length_used
  rw [Config.threeInUse_live] at hlength
  have hptr : regionStart b.addr = 4144 := hptr
  obtain ⟨s', bs', hreleases⟩ := sfree_releases h.wellFormed hb
  rw [hptr] at hreleases
  exact ⟨bs, b, s', bs', h.wellFormed, hlength, hb, hptr, hreleases⟩

/-! ## Releasing everything -/

/-- A heap that is a single free block. -/
structure Heap.Whole (s : Heap) : Prop where
  freeList : s.freeList = s.head
  size : s.size s.head = .ok s.totalSize
  free : s.free s.head = .ok 1
  prev : s.load s.head .prev = .ok s.head
  nextFree : s.load s.head .nextFree = .ok s.head
  prevFree : s.load s.head .prevFree = .ok s.head

section Whole

variable {s : Heap} {bs : List Block} {steps : Nat} {ptrs : List Nat}

/-- A heap without a block in use is a single block. -/
theorem WellFormed.eq_singleton (h : WellFormed s bs) (hnone : used bs = [])
    (htotal : 0 < s.totalSize) : ∃ b, bs = [b] ∧ b.free = true := by
  have hfree : ∀ b ∈ bs, b.free = true := by
    simpa [used, List.filter_eq_nil_iff] using hnone
  cases bs with
  | nil =>
    have := h.blocks.tiles
    rw [Tiles.nil_iff, Heap.typed_totalSize] at this
    omega
  | cons b bs =>
    cases bs with
    | nil => exact ⟨b, rfl, hfree b List.mem_cons_self⟩
    | cons d bs =>
      have hadj := (List.isChain_cons_cons.mp h.noAdjacent).1
      exact absurd ⟨hfree b (by simp), hfree d (by simp)⟩ hadj

/-- **A heap without a block in use is one free block**, whatever has been merged. -/
theorem WellFormed.whole (h : WellFormed s bs) (hnone : used bs = []) (htotal : 0 < s.totalSize) :
    s.Whole := by
  obtain ⟨b, rfl, hbf⟩ := h.eq_singleton hnone htotal
  have hb : b.addr ∈ addrs [b] := by simp
  have htiles := h.blocks.tiles
  rw [Tiles.cons_iff, Tiles.nil_iff] at htiles
  obtain ⟨haddr, hsize⟩ := htiles
  have haddr : b.addr = s.head := haddr
  have hword := h.blocks.word b (by simp)
  rw [hbf] at hword
  have hblock : s.typed.BlockLink b.addr b.addr := by simpa using h.blocks.ring
  have hfree : s.typed.FreeLink b.addr b.addr := by
    have hring := h.frees.ring
    rw [freeAddrs_cons_free hbf] at hring
    simpa using hring
  have hlist : s.freeList = b.addr := by
    rcases h.frees.freeList with ⟨hnil, -⟩ | hmem
    · rw [freeAddrs_cons_free hbf] at hnil
      cases hnil
    · rw [freeAddrs_cons_free hbf] at hmem
      simpa using hmem
  have hload (f : Field) : s.load b.addr f = .ok (s.typed.field b.addr f) := h.views.load hb f
  refine ⟨hlist.trans haddr, ?_, ?_, ?_, ?_, ?_⟩
  all_goals rw [← haddr]
  · rw [h.views.size hb, h.blocks.size_eq (by simp)]
    exact congrArg Except.ok (Nat.add_left_cancel hsize)
  · have heven := b.even
    have hone : (b.size + true.toNat) % 2 = 1 := by
      rw [Bool.toNat_true]
      omega
    rw [h.views.free hb, Typed.free, hword, hone]
  · rw [hload, hblock.2]
  · rw [hload, hfree.1]
  · rw [hload, hfree.2]

/-- `sfree`, of several pointers one after the other. -/
def Heap.sfreeAll (steps : Nat) (ptrs : List Nat) (s : Heap) : Except Fault Heap :=
  ptrs.foldlM (fun s ptr => s.sfree steps ptr) s

theorem Heap.sfreeAll_cons {s s' : Heap} {ptr : Nat} {ptrs : List Nat} :
    s.sfreeAll steps (ptr :: ptrs) = .ok s' ↔
      ∃ s₁, s.sfree steps ptr = .ok s₁ ∧ s₁.sfreeAll steps ptrs = .ok s' := foldlM_cons_eq_ok

theorem Heap.sfreeAll_append {s s' : Heap} {ptrs ptrs' : List Nat} :
    s.sfreeAll steps (ptrs ++ ptrs') = .ok s' ↔
      ∃ s₁, s.sfreeAll steps ptrs = .ok s₁ ∧ s₁.sfreeAll steps ptrs' = .ok s' := by
  unfold Heap.sfreeAll
  rw [List.foldlM_append, bind_eq_ok]

/-- The blocks in use released one after the other, in any order. -/
theorem WellFormed.sfreeAll (h : WellFormed s bs)
    (hptrs : ptrs.Perm ((used bs).map fun b => regionStart b.addr)) :
    ∃ s' bs', (∀ steps, s.totalSize ≤ steps → s.sfreeAll steps ptrs = .ok s') ∧
      SameRegion s s' ∧ WellFormed s' bs' ∧ used bs' = [] := by
  induction ptrs generalizing s bs with
  | nil => exact ⟨s, bs, fun _ _ => rfl, ⟨rfl, rfl, rfl⟩, h, by simpa using hptrs⟩
  | cons ptr ptrs ih =>
    obtain ⟨b, hb, rfl⟩ := List.mem_map.mp (hptrs.subset List.mem_cons_self)
    have hlen : bs.length ≤ s.totalSize := by
      have := h.blocks.tiles.length_le fun b _ => b.size_pos
      exact Nat.le_of_add_le_add_left this
    have hfree := (mem_used.mp hb).2
    obtain ⟨s₁, p, q, rfl, hs₁, hr₁, h₁⟩ := h.sfree_of_used hb
    have hrest : ptrs.Perm ((used (release p b q)).map fun b => regionStart b.addr) := by
      rw [used_append, used_cons_used hfree, List.map_append, List.map_cons] at hptrs
      rw [release_used, List.map_append]
      exact (hptrs.trans List.perm_middle).cons_inv
    obtain ⟨s', bs', hs', hr', h', hnone⟩ := ih h₁ hrest
    refine ⟨s', bs', fun steps hsteps => ?_, hr₁.trans hr', h', hnone⟩
    exact Heap.sfreeAll_cons.mpr
      ⟨s₁, hs₁ steps (hlen.trans hsteps), hs' steps (hr₁.totalSize.trans_le hsteps)⟩

/-- **The order of the releases does not matter**: after all of them the heap is a single
free block, of the size of the whole region. -/
theorem sfreeAll_whole (h : WellFormed s bs) (hne : bs ≠ [])
    (hptrs : ptrs.Perm ((used bs).map fun b => regionStart b.addr)) :
    ∃ s', (∀ steps, s.totalSize ≤ steps → s.sfreeAll steps ptrs = .ok s') ∧
      s'.head = s.head ∧ s'.totalSize = s.totalSize ∧ s'.Whole := by
  obtain ⟨s', bs', hs', hr, h', hnone⟩ := h.sfreeAll hptrs
  have hpos : 0 < s.totalSize := by
    have hlen := h.blocks.tiles.length_le fun b _ => b.size_pos
    have := List.length_pos_of_ne_nil hne
    exact Nat.lt_of_lt_of_le this (Nat.le_of_add_le_add_left hlen)
  exact ⟨s', hs', hr.head, hr.totalSize, h'.whole hnone (hr.totalSize ▸ hpos)⟩

/-- Three neighbours released from the outside in and from the middle on. -/
theorem sfreeAll_whole_first : ∃ bs, WellFormed Config.threeInUse.heap bs ∧ (used bs).length = 3 ∧
    (∃ s', (∀ steps, Config.threeInUse.heap.totalSize ≤ steps →
        Config.threeInUse.heap.sfreeAll steps [4192, 4112, 4144] = .ok s') ∧
      s'.head = Config.threeInUse.heap.head ∧
      s'.totalSize = Config.threeInUse.heap.totalSize ∧ s'.Whole) ∧
    ∃ s', (∀ steps, Config.threeInUse.heap.totalSize ≤ steps →
        Config.threeInUse.heap.sfreeAll steps [4144, 4192, 4112] = .ok s') ∧
      s'.head = Config.threeInUse.heap.head ∧
      s'.totalSize = Config.threeInUse.heap.totalSize ∧ s'.Whole := by
  obtain ⟨bs, h⟩ := Config.threeInUse_held
  have hlive := h.live
  have hlength := h.length_used
  rw [Config.threeInUse_live] at hlive hlength
  have hne : bs ≠ [] := by
    rintro rfl
    cases hlength
  have hinward : [4192, 4112, 4144].Perm [4192, 4144, 4112] := by decide
  have houtward : [4144, 4192, 4112].Perm [4192, 4144, 4112] := by decide
  exact ⟨bs, h.wellFormed, hlength, sfreeAll_whole h.wellFormed hne (hinward.trans hlive),
    sfreeAll_whole h.wellFormed hne (houtward.trans hlive)⟩

end Whole

end Chronos.Salloc
