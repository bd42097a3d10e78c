import Chronos.Salloc.Frame
import Chronos.Salloc.Run

/-!
# The first block that fits

The search of `_salloc` goes once around the free ring, and stops at the first block that is
big enough. That block is handed out whole or split; but where less than
`SALLOC_SMALLEST_REGION` is left over the difference wraps, the block is split all the same,
and the header of the second half lies on what comes behind the block.
-/

namespace Chronos.Salloc

open Chronos.Lib Chronos.Lib.Ring

/-- The regions that the search loop of `_salloc` looks at from `curr` on, in this order. -/
def Heap.searchVisits (s : Heap) (size : Nat) : Nat → Nat → Except Fault (List Nat)
  | 0, _ => .error .steps
  | steps + 1, curr => do
    if size ≤ (← s.usableSize curr) then return [curr]
    let next ← s.load curr .nextFree
    if next = s.freeList then return [curr]
    let visits ← s.searchVisits size steps next
    return curr :: visits

/-- The free blocks in the order of the ring, from `free_list` on. -/
def freeRing (s : Heap) (bs : List Block) : List Block :=
  (freeBlocks bs).dropWhile (·.addr ≠ s.freeList) ++ (freeBlocks bs).takeWhile (·.addr ≠ s.freeList)

/-- The first block of the ring that is big enough. -/
def firstFitting (s : Heap) (bs : List Block) (size : Nat) : Option Block :=
  (freeRing s bs).find? fun b => size ≤ usableSizeOf b.size

/-! ## Going around -/

section Search

variable {s : Heap} {A : List Nat} {H : Typed} {p q bs : List Block} {c : Block} {size steps : Nat}

/-- The search visits an initial part of the walk. -/
theorem Views.searchVisits (hv : Views s A H) {curr : Nat} {l : List Nat} (hsub : curr :: l ⊆ A)
    (hwalk : List.IsChain H.FreeLink (curr :: (l ++ [H.freeList]))) (hend : H.freeList ∉ l)
    (hsteps : l.length < steps) :
    ∃ visits, s.searchVisits size steps curr = .ok visits ∧ visits <+: curr :: l := by
  induction l generalizing curr steps with
  | nil =>
    obtain ⟨steps, rfl⟩ : ∃ k, steps = k + 1 := ⟨steps - 1, by simp at hsteps; omega⟩
    have hcurr : curr ∈ A := hsub List.mem_cons_self
    have hlink : H.field curr .nextFree = H.freeList := (by simpa using hwalk : H.FreeLink _ _).1
    refine ⟨[curr], ?_, List.prefix_refl _⟩
    unfold Heap.searchVisits Heap.usableSize
    by_cases hfit : size ≤ usableSizeOf (H.size curr)
    · simp [hv.size hcurr, hfit, bind, Except.bind, pure, Except.pure]
    · simp [hv.size hcurr, hv.load hcurr, hlink, hv.freeList, hfit, bind, Except.bind, pure,
        Except.pure]
  | cons c l ih =>
    obtain ⟨steps, rfl⟩ : ∃ k, steps = k + 1 := ⟨steps - 1, by simp at hsteps; omega⟩
    have hcurr : curr ∈ A := hsub List.mem_cons_self
    rw [List.cons_append, List.isChain_cons_cons] at hwalk
    have hc : c ≠ H.freeList := fun e => hend (by simp [e])
    have hlen : l.length < steps := by simpa using hsteps
    obtain ⟨visits, hvisits, hpre⟩ := ih (fun a ha => hsub (List.mem_cons_of_mem _ ha)) hwalk.2
      (fun hm => hend (List.mem_cons_of_mem _ hm)) hlen
    unfold Heap.searchVisits Heap.usableSize
    by_cases hfit : size ≤ usableSizeOf (H.size curr)
    · refine ⟨[curr], ?_, by simp⟩
      simp [hv.size hcurr, hfit, bind, Except.bind, pure, Except.pure]
    · refine ⟨curr :: visits, ?_, (List.prefix_cons_inj curr).mpr hpre⟩
      simp only [hv.size hcurr, hv.load hcurr, hwalk.1.1, hv.freeList, hc, hfit, hvisits, bind,
        Except.bind, pure, Except.pure, if_false]

/-- The ring begins at `free_list`. -/
theorem freeRing_eq (hfree : freeBlocks bs = p ++ c :: q) (hc : c.addr = s.freeList)
    (hp : ∀ b ∈ p, b.addr ≠ s.freeList) : freeRing s bs = c :: (q ++ p) := by
  unfold freeRing
  rw [hfree, List.dropWhile_append_of_pos (by simpa using hp),
    List.takeWhile_append_of_pos (by simpa using hp)]
  simp [hc]

/-- The blocks of `ring` are the free blocks of the heap, each of them once, and the free
list leads from `free_list` to each of them in turn and back. -/
structure FreeRing (s : Heap) (bs ring : List Block) : Prop where
  perm : ring.Perm (freeBlocks bs)
  nodup : (addrs ring).Nodup
  first : (addrs ring).head? = some s.freeList
  links : Cycle.Chain s.typed.FreeLink (addrs ring : Cycle Nat)

theorem Formed.exists_freeRing_eq (h : Formed s bs) (hne : freeBlocks bs ≠ []) :
    ∃ p c q, freeBlocks bs = p ++ c :: q ∧ c.addr = s.freeList ∧
      freeRing s bs = c :: (q ++ p) := by
  obtain ⟨-, hnil⟩ | ⟨p, c, q, hfree, hc⟩ := h.current
  · exact absurd hnil hne
  · refine ⟨p, c, q, hfree, hc, freeRing_eq hfree hc fun b hb heq => ?_⟩
    have hnodup := h.frees.nodup
    rw [← addrs_freeBlocks, hfree, addrs_append] at hnodup
    have hne := (List.nodup_append.mp hnodup).2.2 b.addr (addr_mem_addrs hb) c.addr (by simp)
    exact hne (heq.trans hc.symm)

theorem Formed.freeRing (h : Formed s bs) (hne : freeBlocks bs ≠ []) :
    FreeRing s bs (freeRing s bs) := by
  obtain ⟨p, c, q, hfree, hc, hring⟩ := h.exists_freeRing_eq hne
  have hperm : (c :: (q ++ p)).Perm (p ++ c :: q) := by
    rw [← List.cons_append]
    exact List.perm_append_comm
  have hfrees := h.frees
  rw [← addrs_freeBlocks, hfree, addrs_append] at hfrees
  have hturned := hfrees.append_comm
  rw [← addrs_append, List.cons_append] at hturned
  rw [hring]
  refine ⟨hfree ▸ hperm, hturned.nodup, ?_, hturned.ring⟩
  rw [addrs_cons, List.head?_cons, hc]

/-- **First fit.** The search ends with the first block of the ring that is big enough. It
looks at no block twice. -/
theorem Formed.search_firstFitting (h : Formed s bs) (hne : freeBlocks bs ≠ [])
    (hsteps : (freeBlocks bs).length ≤ steps) (size : Nat) :
    s.firstFit steps size = .ok ((firstFitting s bs size).map Block.addr) ∧
      ∃ visits, s.searchVisits size steps s.freeList = .ok visits ∧
        visits <+: addrs (Salloc.freeRing s bs) := by
  obtain ⟨p, c, q, hfree, hc, hring⟩ := h.exists_freeRing_eq hne
  have hcm : c ∈ bs := (mem_freeBlocks.mp (by rw [hfree]; simp)).1
  have h0 : s.freeList ≠ 0 := hc ▸ h.pos_addr hcm
  constructor
  · rw [Heap.firstFit, if_neg h0, h.search hfree hc hsteps, firstFitting, hring]
  · have hr := h.freeRing hne
    have hlinks := hr.links
    have hnodup := hr.nodup
    have hlength := hr.perm.length_eq
    have hsub : addrs (Salloc.freeRing s bs) ⊆ addrs bs := by
      intro a ha
      obtain ⟨b, hb, rfl⟩ := mem_addrs.mp ha
      exact addr_mem_addrs (mem_freeBlocks.mp (hr.perm.mem_iff.mp hb)).1
    rw [hring, addrs_cons, hc] at hlinks hnodup hsub ⊢
    rw [hring, List.length_cons] at hlength
    rw [chain_cons] at hlinks
    refine h.views.searchVisits hsub hlinks (List.nodup_cons.mp hnodup).1 ?_
    rw [addrs, List.length_map]
    omega

end Search

/-! ## A split with little left over -/

section Tight

variable {s s' : Heap} {p q bs : List Block} {b c : Block} {a v t size ptr : Nat} {f : Field}

theorem Heap.store_mapped (h : s.store a f v = .ok s') : s.mem.Mapped (a + f.offset) 8 := by
  unfold Heap.store at h
  split at h
  · assumption
  · cases h

theorem Heap.load_mapped (h : s.load a f = .ok v) : s.mem.Mapped (a + f.offset) 8 := by
  unfold Heap.load at h
  split at h
  · assumption
  · cases h

theorem Heap.setSize_mapped (h : s.setSize a v = .ok s') : s.mem.Mapped a 8 := by
  obtain ⟨w, hw, -⟩ := bind_eq_ok.mp h
  obtain ⟨w, hw, -⟩ := bind_eq_ok.mp hw
  exact Heap.load_mapped hw

theorem Heap.Changes.mapped_iff {T : List Nat} {n : Nat} (h : s.Changes s' T) :
    s'.mem.Mapped a n ↔ s.mem.Mapped a n := by
  rw [Memory.Mapped, Memory.Mapped, h.mapped]

/-- Four words are a header. -/
theorem mapped_header {m : Memory} (h₀ : m.Mapped a 8) (h₁ : m.Mapped (a + 8) 8)
    (h₂ : m.Mapped (a + 16) 8) (h₃ : m.Mapped (a + 24) 8) : m.Mapped a sizeofSallocT := by
  intro i hi
  have hhdr : sizeofSallocT = 32 := rfl
  rcases Nat.lt_or_ge i 8 with hlt | hge
  · exact h₀ i hlt
  · rcases Nat.lt_or_ge i 16 with hlt | hge
    · simpa [show a + 8 + (i - 8) = a + i by omega] using h₁ (i - 8) (by omega)
    · rcases Nat.lt_or_ge i 24 with hlt | hge
      · simpa [show a + 16 + (i - 16) = a + i by omega] using h₂ (i - 16) (by omega)
      · simpa [show a + 24 + (i - 24) = a + i by omega] using h₃ (i - 24) (by omega)

/-- `insert` has stored a `prev` in the new header, and one in the block behind it. -/
theorem Heap.insert_mapped {list node : Nat} (h : s.insert list node = .ok s') :
    s.mem.Mapped (node + 8) 8 ∧ s.mem.Mapped (s.nextAt node + 8) 8 := by
  obtain ⟨s₁, hs₁, h⟩ := bind_eq_ok.mp h
  obtain ⟨n, hn, h⟩ := bind_eq_ok.mp h
  have h₁ := (Heap.store_ok hs₁).1
  have hsize : s₁.sizeAt node = s.sizeAt node := by
    unfold Heap.sizeAt
    rw [h₁.cells node]
    simp [Field.offset]
  have hnext : n = s.nextAt node := by
    rw [Heap.next_ok hn, Heap.nextAt, Heap.nextAt, hsize, h₁.head, h₁.totalSize]
  exact ⟨Heap.store_mapped hs₁, hnext ▸ h₁.mapped_iff.mp (Heap.store_mapped h)⟩

/-- A split that returns has stored a whole header for the second half, and the `prev` of
what comes behind it. -/
theorem Heap.takeSplit_mapped {curr : Nat} (hmin : smallestRegion ≤ size) (ht : t < 2 ^ 64)
    (h : s.takeSplit curr size t = .ok (s', ptr)) :
    s.mem.Mapped (regionStart curr + size) sizeofSallocT ∧
      s.mem.Mapped (s.afterSplit (regionStart curr + size) t + 8) 8 := by
  have hfar : curr + sizeofSallocT ≤ regionStart curr + size := by
    have := smallestRegion_eq
    have : regionOffset = 16 := rfl
    have : sizeofSallocT = 32 := rfl
    unfold regionStart
    omega
  rw [Heap.takeSplit_eq] at h
  obtain ⟨s₄, hs₄, h⟩ := bind_eq_ok.mp h
  obtain ⟨s₅, hs₅, h⟩ := bind_eq_ok.mp h
  obtain ⟨s₆, hs₆, -⟩ := bind_eq_ok.mp h
  obtain ⟨h₄, -⟩ := Heap.splitSizes_ok hfar ht hs₄
  obtain ⟨h₅, -⟩ := Heap.insert_ok hs₅
  obtain ⟨hprev, hbehind⟩ := Heap.insert_mapped hs₅
  rw [Heap.splitSizes_nextAt hfar ht hs₄] at hbehind
  have hall := h₄.trans h₅
  obtain ⟨_, hword, -⟩ := bind_eq_ok.mp hs₄
  obtain ⟨s', hprevFree, hs₆⟩ := bind_eq_ok.mp hs₆
  obtain ⟨_, -, hs₆⟩ := bind_eq_ok.mp hs₆
  obtain ⟨_, hnextFree, -⟩ := bind_eq_ok.mp hs₆
  have hlast := hall.trans (Heap.store_ok hprevFree).1
  refine ⟨?_, h₄.mapped_iff.mp hbehind⟩
  exact mapped_header (Heap.setSize_mapped hword) (h₄.mapped_iff.mp hprev)
    (hlast.mapped_iff.mp (Heap.store_mapped hnextFree))
    (hall.mapped_iff.mp (Heap.store_mapped hprevFree))

/-- A free block behind another one is not next to it. -/
theorem WellFormed.free_behind (h : WellFormed s (p ++ c :: q)) (hfree : c.free = true) (hb : b ∈ q)
    (hbf : b.free = true) : c.addr + c.size + sizeofSallocT ≤ b.addr := by
  have hpairs := (List.pairwise_append.mp h.blocks.tiles.pairwise).2.1
  cases q with
  | nil => cases hb
  | cons n q =>
    have hnext : ¬(c.free = true ∧ n.free = true) := h.noAdjacent.right.rel
    rcases List.mem_cons.mp hb with rfl | hb
    · exact absurd ⟨hfree, hbf⟩ hnext
    · have hcn := (List.pairwise_cons.mp hpairs).1 n List.mem_cons_self
      have hnb := (List.pairwise_cons.mp (List.pairwise_cons.mp hpairs).2).1 b hb
      have := n.fits
      omega

/-- The free headers and the new one, which may lie on that of a block in use. -/
theorem WellFormed.views_tight (h : WellFormed s (p ++ c :: q)) (hfree : c.free = true)
    {bottom : Nat} (hlow : c.addr + sizeofSallocT ≤ bottom) (hhigh : bottom ≤ c.addr + c.size)
    (hmapped : s.mem.Mapped bottom sizeofSallocT) :
    Views s (bottom :: freeAddrs (p ++ c :: q)) s.typed := by
  have hv := h.views
  have hclear : ∀ a ∈ freeAddrs (p ++ c :: q),
      a + sizeofSallocT ≤ bottom ∨ bottom + sizeofSallocT ≤ a := by
    intro a ha
    obtain ⟨b, hb, hbf, rfl⟩ := mem_freeAddrs.mp ha
    have := b.fits
    rcases List.mem_append.mp hb with hb | hb
    · have := (List.pairwise_append.mp h.blocks.tiles.pairwise).2.2 b hb c List.mem_cons_self
      omega
    · rcases List.mem_cons.mp hb with rfl | hb
      · exact .inl hlow
      · have := h.free_behind hfree hb hbf
        omega
  have hlt : bottom < 2 ^ 64 := by
    have := h.block_bounds (b := c) (by simp)
    have := h.space
    omega
  refine Views.self ?_ ?_ ?_
  · intro x hx y hy
    rcases List.mem_cons.mp hx with hxb | hx
    · rcases List.mem_cons.mp hy with hyb | hy
      · exact .inl (hxb.trans hyb.symm)
      · exact .inr (hxb ▸ (hclear y hy).symm)
    · rcases List.mem_cons.mp hy with hyb | hy
      · exact .inr (hyb ▸ hclear x hx)
      · exact hv.far x (freeAddrs_subset hx) y (freeAddrs_subset hy)
  · intro a ha
    rcases List.mem_cons.mp ha with rfl | ha
    · exact hmapped
    · exact hv.mapped a (freeAddrs_subset ha)
  · intro a ha
    rcases List.mem_cons.mp ha with rfl | ha
    · exact hlt
    · exact hv.lt a (freeAddrs_subset ha)

theorem Heap.put_sameRegion (s : Heap) (a v : Nat) (f : Field) : SameRegion s (s.put a f v) := by
  unfold Heap.put
  exact ⟨rfl, rfl, Memory.poke_mapped⟩

/-- A store to a header changes no other field of the headers. -/
theorem Heap.typed_put {x y : Nat} {g : Field}
    (hfar : x = y ∨ x + sizeofSallocT ≤ y ∨ y + sizeofSallocT ≤ x) (hne : g ≠ f) :
    (s.put x f v).typed.field y g = s.typed.field y g := by
  have hf := f.offset_le
  have hg := g.offset_le
  have hfg := Field.offset_disjoint hne
  exact Memory.peek_poke_disjoint (by omega)

/-- `insert` puts a header into the list of all regions, also where it lies on the next one. -/
theorem Heap.insert_of_mapped {A : List Nat} {H : Typed} {list node next : Nat}
    (hv : Views s A H) (hlist : list ∈ A) (hnode : node ∈ A) (hnext : H.next node = next)
    (hmapped : s.mem.Mapped (next + 8) 8) :
    s.insert list node = .ok ((s.put node .prev list).put next .prev node) := by
  have hv₁ := hv.put hnode (f := .prev) (hv.lt list hlist)
  have hnext₁ : (H.set node .prev list).next node = next := by
    rw [Typed.set_next (by decide), hnext]
  have hword : (s.put node .prev list).mem.Mapped (next + Field.prev.offset) 8 :=
    Memory.mapped_poke.mpr hmapped
  unfold Heap.insert
  rw [hv.store hnode, bind_ok, hv₁.next hnode, bind_ok, hnext₁, Heap.store, if_pos hword]
  rfl

/-- The free list takes the new header in and lets the block go, whatever the second half
has overwritten. -/
theorem Views.unlink_tight {A : List Nat} {H : Typed} {curr bottom : Nat} (hv : Views s A H)
    (hcurr : curr ∈ A) (hbottom : bottom ∈ A) (hne : curr ≠ bottom)
    (hnf : H.field curr .nextFree ∈ A) (hpf : H.field curr .prevFree ∈ A) :
    ∃ s₁ s', s.insertFree curr bottom = .ok s₁ ∧ s₁.listRemoveFree curr false = .ok s' ∧
      Views s' A ((H.insertFree curr bottom).listRemoveFree curr false) := by
  obtain ⟨s₁, hs₁, hv₁⟩ := hv.insertFree hcurr hbottom hne hnf
  have hnf₁ : (H.insertFree curr bottom).field curr .nextFree ∈ A := by
    rw [Typed.insertFree_nextFree, if_pos rfl]
    exact hbottom
  have hpf₁ : (H.insertFree curr bottom).field curr .prevFree ∈ A := by
    rw [Typed.insertFree_prevFree, if_neg hne]
    split
    · exact hbottom
    · exact hpf
  obtain ⟨s', hs', hv'⟩ := hv₁.listRemoveFree false hcurr hpf₁ hnf₁
  exact ⟨s₁, s', hs₁, hs', hv'⟩

theorem Typed.cut_link {H : Typed} {curr bottom x : Nat} (hf : f ≠ .sizeAndFree) :
    (H.cut curr bottom t).field x f = H.field x f := by
  unfold Typed.cut
  rw [Typed.setFree_field_ne_field hf, Typed.setFree_field_ne_field hf,
    Typed.setSize_field_ne_field hf, Typed.setSize_field_ne_field hf]

/-- The size words of a split, on headers that do not overlap. -/
theorem Views.splitSizes {A : List Nat} {H : Typed} {curr bottom : Nat} (hv : Views s A H)
    (hcurr : curr ∈ A) (hbottom : bottom ∈ A) (hne : curr ≠ bottom) (ht : t < 2 ^ 64) :
    ∃ s', s.splitSizes curr bottom t = .ok s' ∧ Views s' A (H.cut curr bottom t) := by
  obtain ⟨s₁, hs₁, hv₁⟩ := hv.setSize hbottom ht
  obtain ⟨s₂, hs₂, hv₂⟩ := hv₁.setSize hcurr (v := sizeSub (H.size curr) t) (sizeSub_lt _ _)
  obtain ⟨s₃, hs₃, hv₃⟩ := hv₂.setFree hbottom (v := 1)
  obtain ⟨s₄, hs₄, hv₄⟩ := hv₃.setFree hcurr (v := 0)
  have hsize : (H.setSize bottom t).size curr = H.size curr := by
    unfold Typed.size Typed.setSize
    rw [Typed.set_field_ne_addr hne]
  refine ⟨s₄, ?_, hv₄⟩
  simp only [Heap.splitSizes, hs₁, hv₁.size hcurr, hsize, hs₂, hs₃, hs₄, bind_ok]

/-- The new header in the list of all regions. The links of the block are as before. -/
theorem Views.insert_tight {A : List Nat} {H : Typed} {curr bottom next : Nat}
    (hv : Views s A H) (hcurr : curr ∈ A) (hbottom : bottom ∈ A) (hnext : H.next bottom = next)
    (hmapped : s.mem.Mapped (next + 8) 8)
    (hfar : next = curr ∨ next + sizeofSallocT ≤ curr ∨ curr + sizeofSallocT ≤ next) :
    ∃ s', s.insert curr bottom = .ok s' ∧ SameRegion s s' ∧ Views s' A s'.typed ∧
      ∀ f, f ≠ .prev → s'.typed.field curr f = H.field curr f := by
  refine ⟨_, Heap.insert_of_mapped hv hcurr hbottom hnext hmapped, ?_, ?_, ?_⟩
  · exact (s.put_sameRegion _ _ _).trans (Heap.put_sameRegion _ _ _ _)
  · refine Views.self hv.far (fun x hx => ?_) hv.lt
    exact Memory.mapped_poke.mpr (Memory.mapped_poke.mpr (hv.mapped x hx))
  · intro f hf
    rw [Heap.typed_put hfar hf, Heap.typed_put (hv.far _ hbottom _ hcurr) hf]
    exact hv.peek curr hcurr f

/-- What comes behind the new header is not on the old one. -/
theorem Formed.afterSplit_far (h : Formed s bs) (hc : c ∈ bs) {bottom : Nat}
    (hlow : c.addr + sizeofSallocT ≤ bottom) :
    s.afterSplit bottom t = c.addr ∨ s.afterSplit bottom t + sizeofSallocT ≤ c.addr ∨
      c.addr + sizeofSallocT ≤ s.afterSplit bottom t := by
  unfold Heap.afterSplit
  split
  · exact h.blocks.far _ (h.head_mem (List.ne_nil_of_mem hc)) _ (addr_mem_addrs hc)
  · exact .inr (.inr (by omega))

/-- **A split returns wherever its second half has a header**, also on top of a block in use. -/
theorem WellFormed.takeSplit_of_mapped (h : WellFormed s (p ++ c :: q)) (hfree : c.free = true)
    (hmin : smallestRegion ≤ size) (hsize : size + regionOffset + t = c.size)
    (hmapped : s.mem.Mapped (regionStart c.addr + size) sizeofSallocT)
    (hbehind : s.mem.Mapped (s.afterSplit (regionStart c.addr + size) t + 8) 8) :
    ∃ s', s.takeSplit c.addr size t = .ok (s', regionStart c.addr) ∧ SameRegion s s' := by
  have hoff : regionOffset = 16 := rfl
  have hhdr : sizeofSallocT = 32 := rfl
  have hsmall := smallestRegion_eq
  have hcm : c ∈ p ++ c :: q := by simp
  have hlt := h.size_lt hcm
  have hcf : c.addr ∈ freeAddrs (p ++ c :: q) := mem_freeAddrs.mpr ⟨c, hcm, hfree, rfl⟩
  obtain ⟨bottom, hbottom⟩ : ∃ x, x = regionStart c.addr + size := ⟨_, rfl⟩
  have hlow : c.addr + sizeofSallocT ≤ bottom := by
    rw [hbottom, regionStart]
    omega
  have hend : bottom + t = c.addr + c.size := by
    rw [hbottom, regionStart]
    omega
  rw [← hbottom] at hmapped hbehind
  have hv := h.views_tight hfree hlow (by omega) hmapped
  have hbot : bottom ∈ bottom :: freeAddrs (p ++ c :: q) := List.mem_cons_self
  have hcurr : c.addr ∈ bottom :: freeAddrs (p ++ c :: q) := List.mem_cons_of_mem _ hcf
  have hbne : c.addr ≠ bottom := by omega
  obtain ⟨s₄, hs₄, hv₄⟩ := hv.splitSizes hcurr hbot hbne (t := t) (by omega)
  have hr₄ : SameRegion s s₄ := hv₄.sameRegion rfl rfl rfl
  have hnext : (s.typed.cut c.addr bottom t).next bottom = s.afterSplit bottom t :=
    (Heap.next_ok (hv₄.next hbot)).trans (Heap.splitSizes_nextAt hlow (by omega) hs₄)
  have hnmapped : s₄.mem.Mapped (s.afterSplit bottom t + 8) 8 := by
    rw [Memory.Mapped, hr₄.mapped]
    exact hbehind
  obtain ⟨s₅, hs₅, hr₅, hv₅, hlink⟩ := hv₄.insert_tight hcurr hbot hnext hnmapped
    (h.toFormed.afterSplit_far hcm hlow)
  obtain ⟨hnf, hpf⟩ := h.frees.links_mem hcf
  obtain ⟨s₆, s₇, hs₆, hs₇, hv₇⟩ := hv₅.unlink_tight hcurr hbot hbne
    (by rw [hlink _ (by decide), Typed.cut_link (by decide)]; exact List.mem_cons_of_mem _ hnf)
    (by rw [hlink _ (by decide), Typed.cut_link (by decide)]; exact List.mem_cons_of_mem _ hpf)
  refine ⟨s₇, ?_, (hr₄.trans hr₅).trans (hv₇.sameRegion rfl rfl rfl)⟩
  rw [Heap.takeSplit_eq, ← hbottom, hs₄, bind_ok, hs₅, bind_ok, hs₆, bind_ok, hs₇]
  rfl

/-- Behind the second half comes the next block; where the size left over is odd, the `prev`
is stored one byte before that block's own. -/
theorem Formed.afterSplit_mapped_iff (h : Formed s bs) (hc : c ∈ bs)
    {bottom : Nat} (hend : bottom + t = c.addr + c.size) :
    s.mem.Mapped (s.afterSplit bottom t + 8) 8 ↔
      t % 2 = 0 ∨ s.mem.Mapped (c.addr + c.size + 7) 8 := by
  rcases Nat.mod_two_eq_zero_or_one t with heven | hodd
  · have hnext : s.afterSplit bottom t = s.typed.next c.addr := by
      rw [h.blocks.next_eq hc, Heap.afterSplit, heven, Nat.sub_zero, hend]
      rfl
    have hmapped := h.views.mapped _ (h.blocks.next_mem hc)
    rw [hnext]
    exact ⟨fun _ => .inl heven, fun _ => hmapped.mono (by omega) (by rw [sizeofSallocT]; omega)⟩
  · have hbound := (h.block_bounds hc).2
    have hafter : s.afterSplit bottom t + 8 = c.addr + c.size + 7 := by
      rw [Heap.afterSplit, hodd, if_neg (by omega)]
      omega
    rw [hafter]
    exact ⟨.inr, fun hor => hor.resolve_left (by omega)⟩

/-- The header of the second half can be stored, and the `prev` of what comes behind it. -/
def TakesSplit (s : Heap) (c : Block) (size : Nat) : Prop :=
  (smallestRegion ≤ sizeSub (usableSizeOf c.size) size ∨
      s.mem.Mapped (regionStart c.addr + size) sizeofSallocT) ∧
    (size % 2 = 0 ∨ s.mem.Mapped (c.addr + c.size + 7) 8)

/-- The size left over is at least `SALLOC_SMALLEST_REGION`, but too small for a block. -/
def TakesWhole (c : Block) (size : Nat) : Prop :=
  smallestRegion ≤ sizeSub (usableSizeOf c.size) size ∧
    sizeSub (usableSizeOf c.size) size < sizeofSallocT

theorem usableSizeOf_lt_iff {t : Nat} (ht : t < 2 ^ 64) :
    usableSizeOf t < smallestRegion ↔ smallestRegion ≤ t ∧ t < sizeofSallocT := by
  have hoff : regionOffset = 16 := rfl
  have hhdr : sizeofSallocT = 32 := rfl
  rw [smallestRegion_eq]
  unfold usableSizeOf sizeSub
  omega

theorem WellFormed.take_of_whole (h : WellFormed s bs) (hc : c ∈ bs) (hfree : c.free = true)
    (hwhole : TakesWhole c size) :
    ∃ s', s.take c.addr size = .ok (s', regionStart c.addr) ∧ SameRegion s s' := by
  obtain ⟨p, q, rfl⟩ := List.append_of_mem hc
  obtain ⟨s', hs', hr, -⟩ := h.toFormed.take_whole hfree
    ((usableSizeOf_lt_iff (sizeSub_lt _ _)).mpr hwhole)
  exact ⟨s', hs', hr⟩

/-- Taking a free block that is big enough succeeds when it is kept whole, or when a split
stays in memory. -/
theorem WellFormed.take_iff (h : WellFormed s bs) (hc : c ∈ bs) (hfree : c.free = true)
    (hmin : smallestRegion ≤ size) (hfit : size ≤ usableSizeOf c.size) :
    (∃ s', s.take c.addr size = .ok (s', regionStart c.addr) ∧ SameRegion s s') ↔
      TakesWhole c size ∨ TakesSplit s c size := by
  obtain ⟨p, q, rfl⟩ := List.append_of_mem hc
  have hoff : regionOffset = 16 := rfl
  have hhdr : sizeofSallocT = 32 := rfl
  have hsmall := smallestRegion_eq
  have hlt := h.size_lt hc
  have hfits := c.fits
  have hblock := c.even
  have husable : usableSizeOf c.size = c.size - regionOffset := sizeSub_eq_sub (by omega) hlt
  obtain ⟨t, ht⟩ : ∃ t, t = sizeSub (usableSizeOf c.size) size := ⟨_, rfl⟩
  have hleft : t = c.size - regionOffset - size := by
    rw [ht, husable]
    exact sizeSub_eq_sub (husable ▸ hfit) (by omega)
  have hend : regionStart c.addr + size + t = c.addr + c.size := by
    rw [regionStart]
    omega
  by_cases hwhole : TakesWhole c size
  · exact ⟨fun _ => .inl hwhole, fun _ => h.take_of_whole hc hfree hwhole⟩
  · have htake : s.take c.addr size = s.takeSplit c.addr size t := by
      have hsplit := mt (usableSizeOf_lt_iff (sizeSub_lt _ _)).mp hwhole
      unfold Heap.take
      rw [h.splitSize hc, bind_ok, if_neg hsplit, ht]
    have hbehind := h.toFormed.afterSplit_mapped_iff hc hend
    rw [show t % 2 = 0 ↔ size % 2 = 0 by omega] at hbehind
    rw [htake, or_iff_right hwhole, TakesSplit, ← ht, ← hbehind]
    constructor
    · rintro ⟨s', hs', _⟩
      have hstores := Heap.takeSplit_mapped hmin (by omega) hs'
      exact ⟨.inr hstores.1, hstores.2⟩
    · rintro ⟨hheader, hprev⟩
      refine h.takeSplit_of_mapped hfree hmin (by omega) ?_ hprev
      rcases hheader with hslack | hmapped
      · -- a header's worth is left over: the block would be kept whole otherwise
        have hroom : sizeofSallocT ≤ t := by
          by_contra hlt
          exact hwhole ⟨ht ▸ hslack, ht ▸ Nat.not_le.mp hlt⟩
        have hbound := h.block_bounds hc
        have hheap : s.mem.Mapped s.head s.totalSize := h.mapped
        exact hheap.mono (by rw [regionStart]; omega) (by omega)
      · exact hmapped

end Tight

/-! ## `_salloc` -/

section Salloc

variable {s : Heap} {bs : List Block} {size steps : Nat}

/-- How `_salloc` searches: no block twice, and on to the growth paths only when no free
block is big enough. Until then it does the same whatever these are. -/
structure Searches (s : Heap) (bs : List Block) (steps size : Nat) : Prop where
  visits : ∃ visits, s.searchVisits size steps s.freeList = .ok visits ∧ visits.Nodup ∧
    visits ⊆ freeAddrs bs
  finds : s.firstFit steps size = .ok ((firstFitting s bs size).map Block.addr)
  grows : ∀ os grow grow', s.attempt os steps size grow ≠ s.attempt os steps size grow' →
    ∀ b ∈ bs, b.free = true → usableSizeOf b.size < size

/-- Where a free block is big enough, `_salloc` returns the payload of the first one, and the
heap has not grown. -/
structure FirstFits (s : Heap) (bs : List Block) (steps size : Nat) : Prop
    extends Searches s bs steps size where
  returns : ∀ b ∈ bs, b.free = true → size ≤ usableSizeOf b.size →
    ∃ c, firstFitting s bs size = some c ∧ ∀ os retry, ∃ s',
      Heap._salloc os steps size retry s = .ok (s', regionStart c.addr) ∧ SameRegion s s'

/-- The first block that is big enough is kept whole, or the size is at least
`SALLOC_SMALLEST_REGION` and the split stays in memory. -/
def SplitsInMemory (s : Heap) (bs : List Block) (size : Nat) : Prop :=
  ∀ c, firstFitting s bs size = some c →
    TakesWhole c size ∨ smallestRegion ≤ size ∧ TakesSplit s c size

theorem Heap.attempt_of_fit {os : Os} {curr : Nat} {grow : Heap → Except Fault (Heap × Nat)}
    (hhead : s.head ≠ 0) (hfit : s.firstFit steps size = .ok (some curr)) :
    s.attempt os steps size grow = s.take curr size := by
  have hready : s.ready os = .ok (s, 0) := if_neg hhead
  unfold Heap.attempt
  rw [hready, bind_ok]
  simp only [ne_eq, not_true_eq_false, if_false, hfit, bind_ok]

theorem Heap._salloc_of_fit {os : Os} {curr retry : Nat} (hhead : s.head ≠ 0)
    (hfit : s.firstFit steps size = .ok (some curr)) :
    Heap._salloc os steps size retry s = s.take curr size := by
  cases retry with
  | zero => exact Heap.attempt_of_fit hhead hfit
  | succ retry => exact Heap.attempt_of_fit hhead hfit

theorem FreeRing.mem_iff {ring : List Block} {b : Block} (h : FreeRing s bs ring) :
    b ∈ ring ↔ b ∈ bs ∧ b.free = true := h.perm.mem_iff.trans mem_freeBlocks

theorem Formed.searches (h : Formed s bs) (hne : freeBlocks bs ≠ [])
    (hsteps : (freeBlocks bs).length ≤ steps) (size : Nat) : Searches s bs steps size := by
  obtain ⟨hfirst, visits, hvisits, hpre⟩ := h.search_firstFitting hne hsteps size
  have hring := h.freeRing hne
  refine ⟨⟨visits, hvisits, hring.nodup.sublist hpre.sublist, fun a ha => ?_⟩, hfirst, ?_⟩
  · obtain ⟨b, hb, rfl⟩ := mem_addrs.mp (hpre.subset ha)
    obtain ⟨hbm, hbf⟩ := hring.mem_iff.mp hb
    exact mem_freeAddrs.mpr ⟨b, hbm, hbf, rfl⟩
  · intro os grow grow' hdiff b hb hbf
    cases hfind : firstFitting s bs size with
    | none =>
      have := List.find?_eq_none.mp hfind b (hring.mem_iff.mpr ⟨hb, hbf⟩)
      simpa using this
    | some c =>
      rw [hfind] at hfirst
      have hhead : s.head ≠ 0 := Nat.pos_iff_ne_zero.mp h.pos
      exact absurd ((Heap.attempt_of_fit hhead hfirst).trans
        (Heap.attempt_of_fit hhead hfirst).symm) hdiff

theorem WellFormed.firstFits_of_splitsInMemory (h : WellFormed s bs)
    (hsearches : Searches s bs steps size) (hring : FreeRing s bs (freeRing s bs))
    (hsplits : SplitsInMemory s bs size) : FirstFits s bs steps size := by
  have hhead : s.head ≠ 0 := Nat.pos_iff_ne_zero.mp h.pos
  refine ⟨hsearches, fun b hb hbf hfit => ?_⟩
  have hsome : (firstFitting s bs size).isSome := by
    refine List.find?_isSome.mpr ⟨b, hring.mem_iff.mpr ⟨hb, hbf⟩, ?_⟩
    exact decide_eq_true hfit
  obtain ⟨c, hc⟩ := Option.isSome_iff_exists.mp hsome
  obtain ⟨hcm, hcf⟩ := hring.mem_iff.mp (List.mem_of_find?_eq_some hc)
  have htake : ∃ s', s.take c.addr size = .ok (s', regionStart c.addr) ∧ SameRegion s s' := by
    rcases hsplits c hc with hwhole | ⟨hmin, hsplit⟩
    · exact h.take_of_whole hcm hcf hwhole
    · exact (h.take_iff hcm hcf hmin (by simpa using List.find?_some hc)).mpr (.inr hsplit)
  obtain ⟨s', hs', hr⟩ := htake
  have hfirst := hsearches.finds
  rw [hc] at hfirst
  exact ⟨c, hc, fun os retry => ⟨s', (Heap._salloc_of_fit hhead hfirst).trans hs', hr⟩⟩

theorem WellFormed.splitsInMemory_of_firstFits (h : WellFormed s bs)
    (hring : FreeRing s bs (freeRing s bs)) (hmin : smallestRegion ≤ size)
    (hfits : FirstFits s bs steps size) : SplitsInMemory s bs size := by
  intro c hc
  have hhead : s.head ≠ 0 := Nat.pos_iff_ne_zero.mp h.pos
  obtain ⟨hcm, hcf⟩ := hring.mem_iff.mp (List.mem_of_find?_eq_some hc)
  have hfit : size ≤ usableSizeOf c.size := by simpa using List.find?_some hc
  obtain ⟨d, hd, hreturns⟩ := hfits.returns c hcm hcf hfit
  obtain rfl : c = d := Option.some.inj (hc.symm.trans hd)
  obtain ⟨s', hs', hr⟩ := hreturns secondPage 0
  have hfirst := hfits.finds
  rw [hc] at hfirst
  rw [Heap._salloc_of_fit hhead hfirst] at hs'
  exact ((h.take_iff hcm hcf hmin hfit).mp ⟨s', hs', hr⟩).imp_right fun hsplit => ⟨hmin, hsplit⟩

/-- **First fit.** The free blocks form a ring from `free_list` on, and for every size the
search goes along it, no block twice. `_salloc` returns the first block that is big enough
when that is kept whole or the split stays in memory, and from `SALLOC_SMALLEST_REGION` on
only then. -/
theorem WellFormed.firstFits_iff (h : WellFormed s bs) (hne : freeBlocks bs ≠ [])
    (hsteps : (freeBlocks bs).length ≤ steps) (size : Nat) :
    FreeRing s bs (freeRing s bs) ∧ Searches s bs steps size ∧
      (SplitsInMemory s bs size → FirstFits s bs steps size) ∧
      (smallestRegion ≤ size → (FirstFits s bs steps size ↔ SplitsInMemory s bs size)) := by
  have hring := h.toFormed.freeRing hne
  have hsearches := h.toFormed.searches hne hsteps size
  have hreturns := h.firstFits_of_splitsInMemory hsearches hring
  exact ⟨hring, hsearches, hreturns,
    fun hmin => ⟨h.splitsInMemory_of_firstFits hring hmin, hreturns⟩⟩

/-- `init_salloc` maps its region only. -/
theorem Heap.initSalloc_mapped {s s' : Heap} {region : Region} {canExtend : Bool} {r : Int}
    (h : s.initSalloc ⟨some region, canExtend⟩ = .ok (s', r)) :
    s'.mem.mapped = (s.mem.map region.base allocSize).mapped := by
  obtain ⟨s₁, hs₁, h⟩ := bind_eq_ok.mp h
  obtain ⟨s₂, hs₂, h⟩ := bind_eq_ok.mp h
  obtain ⟨s₃, hs₃, h⟩ := bind_eq_ok.mp h
  obtain ⟨s₄, hs₄, h⟩ := bind_eq_ok.mp h
  obtain ⟨s₅, hs₅, h⟩ := bind_eq_ok.mp h
  obtain rfl : s₅ = s' := congrArg Prod.fst (Except.ok.inj h)
  have h₁ := (Heap.setSize_ok (by decide) hs₁).1.mapped
  have h₂ := (Heap.setFree_ok hs₂).1.mapped
  have h₃ := (Heap.store_ok hs₃).1.mapped
  have h₄ := (Heap.store_ok hs₄).1.mapped
  have h₅ := (Heap.store_ok hs₅).1.mapped
  exact h₅.trans (h₄.trans (h₃.trans (h₂.trans h₁)))

/-- The heap that `init_salloc` leaves on the second page. -/
theorem exists_freshHeap : ∃ s b, WellFormed s [b] ∧ b.free = true ∧ b.addr = 4096 ∧
    b.size = allocSize ∧ s.mem.mapped = ((Memory.empty).map 4096 allocSize).mapped := by
  obtain ⟨s, hs, -, -, h⟩ := Heap.initSalloc_spec (Config.start .empty).heap
    ⟨4096, by decide, by decide, by decide⟩ false
  exact ⟨s, _, h, rfl, rfl, rfl, Heap.initSalloc_mapped hs⟩

theorem WellFormed.firstFitting_single {c : Block} (h : WellFormed s [c]) (hfree : c.free = true)
    (hfit : size ≤ usableSizeOf c.size) : firstFitting s [c] size = some c := by
  have hblocks : freeBlocks [c] = [c] := by simp [freeBlocks, hfree]
  have hring := h.toFormed.freeRing (by simp [hblocks])
  have hperm := hring.perm
  rw [hblocks] at hperm
  simp [firstFitting, List.perm_singleton.mp hperm, hfit]

/-- On a fresh heap a request of 32 bytes gets the first part of the block. With 33 bytes the
second half ends one byte early, and the `prev` behind it is not in memory. -/
theorem WellFormed.firstFits_iff_fresh : ∃ s bs, WellFormed s bs ∧
    FreeRing s bs (freeRing s bs) ∧ Searches s bs 1 33 ∧ FirstFits s bs 1 32 ∧
      ¬FirstFits s bs 1 33 := by
  obtain ⟨s, b, h, hbf, haddr, hsize, hmapped⟩ := exists_freshHeap
  have hfree : freeBlocks [b] = [b] := by simp [freeBlocks, hbf]
  have hne : freeBlocks [b] ≠ [] := by simp [hfree]
  have hsteps : (freeBlocks [b]).length ≤ 1 := by simp [hfree]
  obtain ⟨-, -, hreturns, -⟩ := h.firstFits_iff hne hsteps 32
  obtain ⟨hring, hsearches, -, hiff⟩ := h.firstFits_iff hne hsteps 33
  refine ⟨s, [b], h, hring, hsearches, hreturns fun c hc => ?_, fun hfits => ?_⟩
  · rw [h.firstFitting_single hbf (by rw [hsize]; decide)] at hc
    obtain rfl := Option.some.inj hc
    refine .inr ⟨by decide, .inl ?_, .inl rfl⟩
    rw [hsize]
    decide
  · have hsplits := (hiff (by decide)).mp hfits b
      (h.firstFitting_single hbf (by rw [hsize]; decide))
    rcases hsplits with hwhole | ⟨-, -, heven | hbehind⟩
    · rw [TakesWhole, hsize] at hwhole
      exact absurd hwhole (by decide)
    · cases heven
    · have hlast := hbehind 0 (by decide)
      rw [hmapped, haddr, hsize] at hlast
      exact absurd hlast (by decide)

/-- A request for all of a fresh heap finds the block, and faults on the split. -/
theorem WellFormed.not_firstFits_whole : ¬∀ (s : Heap) (bs : List Block) (steps size : Nat),
    WellFormed s bs → freeBlocks bs ≠ [] → (freeBlocks bs).length ≤ steps → size % 2 = 0 →
      smallestRegion ≤ size → FirstFits s bs steps size := by
  intro hall
  obtain ⟨s, b, h, hbf, haddr, hsize, hmapped⟩ := exists_freshHeap
  have hfree : freeBlocks [b] = [b] := by simp [freeBlocks, hbf]
  have hfit : allocSize - 16 ≤ usableSizeOf b.size := by rw [hsize]; decide
  have hfits := hall s [b] 1 (allocSize - 16) h (by simp [hfree]) (by simp [hfree]) (by decide)
    (by decide)
  have hring := h.toFormed.freeRing (by simp [hfree])
  have hsplits := h.splitsInMemory_of_firstFits hring (by decide) hfits b
    (h.firstFitting_single hbf hfit)
  rcases hsplits with hwhole | ⟨-, hslack | hbehind, -⟩
  · rw [TakesWhole, hsize] at hwhole
    exact absurd hwhole (by decide)
  · rw [hsize] at hslack
    exact absurd hslack (by decide)
  · have hzero := hbehind 0 (by decide)
    rw [hmapped, haddr] at hzero
    exact absurd hzero (by decide)

end Salloc

end Chronos.Salloc
