import Chronos.Salloc.Search

/-!
# `sfree`

A released block is linked into the free ring behind the nearest free block
before it, or starts the ring anew, and is combined with its neighbours.
-/

namespace Chronos.Salloc

open Chronos.Lib Chronos.Lib.Ring

section FreeRing

variable {s : Heap} {p q bs : List Block} {b c : Block} {r : List Nat} {x steps : Nat}

theorem Formed.pos_addr (h : Formed s bs) (hb : b ∈ bs) : b.addr ≠ 0 := by
  have := (h.block_bounds hb).1
  have := h.pos
  omega

/-- Linking a block in use into the free ring behind the free block before it. -/
theorem Formed.insertFree (h : Formed s (p ++ b :: q)) (hb : b.free = false)
    (hx : freeAddrs (q ++ p) = r ++ [x]) :
    ∃ s', s.insertFree x b.addr = .ok s' ∧ SameRegion s s' ∧
      Formed s' (p ++ b.withFree true :: q) := by
  have hbm : b ∈ p ++ b :: q := by simp
  have hfree : freeAddrs (p ++ b :: q) = freeAddrs p ++ freeAddrs q := by
    rw [freeAddrs_append, freeAddrs_cons_used hb]
  have hshape : FreeShape s.typed (x :: r) := by
    have hf := h.frees
    rw [hfree] at hf
    have hf' := hf.append_comm
    rw [← freeAddrs_append, hx] at hf'
    exact hf'.append_comm
  have hmem : ∀ a ∈ x :: r, a ∈ freeAddrs (p ++ b :: q) := by
    intro a ha
    have : a ∈ freeAddrs (q ++ p) := by
      rw [hx]
      simp only [List.mem_append, List.mem_cons, List.not_mem_nil, or_false] at ha ⊢
      tauto
    rw [freeAddrs_append, List.mem_append] at this
    rw [hfree, List.mem_append]
    exact this.symm
  have hbfree : b.addr ∉ x :: r := by
    intro hm
    obtain ⟨c, hc, hcf, hca⟩ := mem_freeAddrs.mp (hmem _ hm)
    have : c = b := h.blocks.tiles.eq_of_start hc hbm (fun d _ => d.size_pos) hca
    rw [this, hb] at hcf
    cases hcf
  have hlinks := hshape.links_mem (x := x) List.mem_cons_self
  obtain ⟨s', hs', hv'⟩ := h.views.insertFree
    (freeAddrs_subset (hmem x List.mem_cons_self)) (addr_mem_addrs hbm)
    (fun e => hbfree (e ▸ List.mem_cons_self)) (freeAddrs_subset (hmem _ hlinks.1))
  have hr := hv'.sameRegion (s := s) rfl rfl rfl
  refine ⟨s', hs', hr, h.of_views hr hv' ?_ h.blocks.insertFree ?_⟩
  · simp [Block.withFree]
  · have hins := hshape.insertFree_head hbfree (h.pos_addr hbm)
    have hins' : FreeShape (s.typed.insertFree x b.addr) (b.addr :: (freeAddrs q ++ freeAddrs p)) := by
      rw [← freeAddrs_append, hx]
      exact FreeShape.append_comm [x] hins
    rw [freeAddrs_append, freeAddrs_cons_free (b := b.withFree true) rfl]
    exact FreeShape.append_comm (b.addr :: freeAddrs q) hins'

/-- Taking a free block out of the free ring. -/
theorem Formed.listRemoveFree (h : Formed s (p ++ b :: q)) (hb : b.free = true)
    (combined : Bool) :
    ∃ s', s.listRemoveFree b.addr combined = .ok s' ∧ SameRegion s s' ∧
      Formed s' (p ++ b.withFree false :: q) := by
  have hbm : b ∈ p ++ b :: q := by simp
  obtain ⟨hnf, hpf⟩ := h.frees.links_mem (mem_freeAddrs.mpr ⟨b, hbm, hb, rfl⟩)
  obtain ⟨s', hs', hv'⟩ := h.views.listRemoveFree combined (addr_mem_addrs hbm)
    (freeAddrs_subset hpf) (freeAddrs_subset hnf)
  have hr := hv'.sameRegion (s := s) rfl rfl rfl
  refine ⟨s', hs', hr, h.of_views hr hv' ?_ (h.blocks.listRemoveFree combined) ?_⟩
  · simp [Block.withFree]
  · have hf := h.frees
    rw [freeAddrs_append, freeAddrs_cons_free hb] at hf
    rw [freeAddrs_append, freeAddrs_cons_used (b := b.withFree false) rfl]
    exact hf.listRemoveFree combined

/-- The free ring started anew with a single block. -/
theorem Formed.restart (h : Formed s (p ++ b :: q)) (hnone : freeAddrs (q ++ p) = []) :
    ∃ s', (do
      let s : Heap := { s with freeList := b.addr }
      let s ← s.store b.addr .nextFree b.addr
      let s ← s.store b.addr .prevFree b.addr
      s.setFree b.addr 1) = Except.ok s' ∧ SameRegion s s' ∧
      Formed s' (p ++ b.withFree true :: q) := by
  have hbm : b ∈ p ++ b :: q := by simp
  have hba := addr_mem_addrs hbm
  have hlt := h.views.lt b.addr hba
  have hv₁ := h.views.setFreeList b.addr
  have hv₂ := hv₁.put hba (f := .nextFree) hlt
  have hv₃ := hv₂.put hba (f := .prevFree) hlt
  obtain ⟨s', hs', hv'⟩ := hv₃.setFree hba (v := 1)
  have hr := hv'.sameRegion (s := s) rfl rfl rfl
  refine ⟨s', ?_, hr, h.of_views hr hv' ?_ ?_ ?_⟩
  · simp only [hv₁.store hba, hv₂.store hba, hs', bind, Except.bind]
  · simp [Block.withFree]
  · have hblocks : BlockShape { s.typed with freeList := b.addr } (p ++ b :: q) :=
      h.blocks.congr rfl rfl (fun _ _ => rfl) fun _ _ => rfl
    exact ((hblocks.set_link (f := .nextFree) b.addr b.addr (by decide) (by decide)).set_link
      (f := .prevFree) b.addr b.addr (by decide) (by decide)).setFree true
  · rw [freeAddrs_append, List.append_eq_nil_iff] at hnone
    rw [freeAddrs_append, freeAddrs_cons_free (b := b.withFree true) rfl, hnone.1, hnone.2]
    have hpos : b.addr ≠ 0 := h.pos_addr hbm
    refine FreeShape.single hpos ?_ ?_ rfl
    · simp [Typed.setFree_field_ne_field]
    · simp [Typed.setFree_field_ne_field]

theorem freeAddrs_eq_nil : freeAddrs bs = [] ↔ ∀ c ∈ bs, c.free = false := by
  simp [freeAddrs, addrs, List.filter_eq_nil_iff]

/-- **Release.** `sfree` of the payload of a block in use puts the block back. -/
theorem Formed.sfree (h : Formed s (p ++ b :: q)) (hb : b.free = false)
    (hsteps : (p ++ b :: q).length ≤ steps) :
    ∃ s', s.sfree steps (regionStart b.addr) = .ok s' ∧ SameRegion s s' ∧
      Formed s' (release p b q) := by
  have hbm : b ∈ p ++ b :: q := by simp
  have hptr : regionStart b.addr - regionOffset = b.addr := Nat.add_sub_cancel ..
  unfold Heap.sfree
  simp only [hptr, h.views.load (addr_mem_addrs hbm), h.searchBack hb hsteps, bind, Except.bind]
  rcases List.eq_nil_or_concat' (freeAddrs (q ++ p)) with hnone | ⟨r, x, hx⟩
  · have hused := freeAddrs_eq_nil.mp hnone
    rw [hnone, List.getLastD_nil, if_pos rfl,
      release_alone (fun c hc => hused c (by simp [hc])) fun c hc => hused c (by simp [hc])]
    exact h.restart hnone
  · have hxne : x ≠ b.addr := by
      rintro rfl
      have hmem : b.addr ∈ freeAddrs (q ++ p) := by simp [hx]
      obtain ⟨c, hc, -, hca⟩ := mem_freeAddrs.mp hmem
      exact h.blocks.addr_ne ((List.mem_append.mp hc).symm) hca
    obtain ⟨s₁, hs₁, hr₁, h₁⟩ := h.insertFree hb hx
    obtain ⟨s₂, hs₂, hr₂, h₂⟩ := h₁.coalesce (b := b.withFree true) rfl
    rw [hx, List.getLastD_concat, if_neg hxne, hs₁]
    exact ⟨s₂, hs₂, hr₁.trans hr₂, h₂⟩

theorem WellFormed.sfree (h : WellFormed s (p ++ b :: q)) (hb : b.free = false)
    (hsteps : (p ++ b :: q).length ≤ steps) :
    ∃ s', s.sfree steps (regionStart b.addr) = .ok s' ∧ SameRegion s s' ∧
      WellFormed s' (release p b q) := by
  obtain ⟨s', hs', hr, h'⟩ := h.toFormed.sfree hb hsteps
  exact ⟨s', hs', hr, h', release_noAdjacent h.noAdjacent⟩

end FreeRing

end Chronos.Salloc
