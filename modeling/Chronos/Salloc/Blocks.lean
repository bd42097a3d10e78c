import Chronos.Lib.Ring
import Chronos.Lib.Tiling
import Chronos.Salloc.Typed

/-!
# Well-formed heaps

A heap is a list of blocks in address order. `BlockShape H bs` is what the size
words and the `prev` fields say about it: the blocks tile the region and each
block's `prev` is its predecessor, the first block's the last. `FreeShape H fs`
is what `free_list` and the free links say: they thread the addresses `fs` into
a ring. The two read different fields, so an operation on one list keeps the
shape of the other.
-/

namespace Chronos.Salloc

open Chronos.Lib Chronos.Lib.Ring

/-- A block of the heap. Every block can hold the header of a free one. -/
structure Block where
  addr : Nat
  size : Nat
  free : Bool
  fits : sizeofSallocT ≤ size
  even : size % 2 = 0

def Block.withFree (b : Block) (free : Bool) : Block := { b with free }

@[simp] theorem Block.withFree_addr (b : Block) (x : Bool) : (b.withFree x).addr = b.addr := rfl
@[simp] theorem Block.withFree_size (b : Block) (x : Bool) : (b.withFree x).size = b.size := rfl
@[simp] theorem Block.withFree_free (b : Block) (x : Bool) : (b.withFree x).free = x := rfl

def addrs (bs : List Block) : List Nat := bs.map Block.addr

def freeAddrs (bs : List Block) : List Nat := addrs (bs.filter (·.free))

/-- The two links between a block and the next one. -/
def Typed.BlockLink (H : Typed) (x y : Nat) : Prop := H.next x = y ∧ H.field y .prev = x

/-- The two links between a free block and the next free one. -/
def Typed.FreeLink (H : Typed) (x y : Nat) : Prop :=
  H.field x .nextFree = y ∧ H.field y .prevFree = x

structure BlockShape (H : Typed) (bs : List Block) : Prop where
  tiles : Tiles Block.addr Block.size H.head (H.head + H.totalSize) bs
  word : ∀ b ∈ bs, H.field b.addr .sizeAndFree = b.size + b.free.toNat
  ring : Cycle.Chain H.BlockLink (addrs bs : Cycle Nat)

structure FreeShape (H : Typed) (fs : List Nat) : Prop where
  ring : Cycle.Chain H.FreeLink (fs : Cycle Nat)
  nodup : fs.Nodup
  pos : ∀ a ∈ fs, a ≠ 0
  freeList : (fs = [] ∧ H.freeList = 0) ∨ H.freeList ∈ fs

/-- No two neighbouring blocks are both free. -/
def NoAdjacentFree (bs : List Block) : Prop :=
  bs.IsChain fun a b => ¬(a.free = true ∧ b.free = true)

/-- A heap of the blocks `bs`, free neighbours allowed. -/
structure Formed (s : Heap) (bs : List Block) : Prop where
  pos : 0 < s.head
  space : s.head + s.totalSize < 2 ^ 64
  mapped : s.mem.Mapped s.head s.totalSize
  blocks : BlockShape s.typed bs
  frees : FreeShape s.typed (freeAddrs bs)

/-- **A well-formed heap** with the blocks `bs`. -/
structure WellFormed (s : Heap) (bs : List Block) : Prop extends Formed s bs where
  noAdjacent : NoAdjacentFree bs

section Addrs

variable {p q bs : List Block} {b : Block}

@[simp] theorem addrs_nil : addrs [] = [] := rfl
@[simp] theorem addrs_cons : addrs (b :: bs) = b.addr :: addrs bs := rfl
@[simp] theorem addrs_append : addrs (p ++ q) = addrs p ++ addrs q := List.map_append

@[simp] theorem freeAddrs_nil : freeAddrs [] = [] := rfl

@[simp] theorem freeAddrs_append : freeAddrs (p ++ q) = freeAddrs p ++ freeAddrs q := by
  simp [freeAddrs]

theorem freeAddrs_cons_free (h : b.free = true) :
    freeAddrs (b :: bs) = b.addr :: freeAddrs bs := by
  simp [freeAddrs, h]

theorem freeAddrs_cons_used (h : b.free = false) : freeAddrs (b :: bs) = freeAddrs bs := by
  simp [freeAddrs, h]

theorem mem_addrs {a : Nat} : a ∈ addrs bs ↔ ∃ b ∈ bs, b.addr = a := List.mem_map

theorem mem_freeAddrs {a : Nat} : a ∈ freeAddrs bs ↔ ∃ b ∈ bs, b.free = true ∧ b.addr = a := by
  simp [freeAddrs, mem_addrs, and_assoc]

theorem addr_mem_addrs (h : b ∈ bs) : b.addr ∈ addrs bs := mem_addrs.mpr ⟨b, h, rfl⟩

theorem freeAddrs_subset : freeAddrs bs ⊆ addrs bs := by
  intro a ha
  obtain ⟨b, hb, -, rfl⟩ := mem_freeAddrs.mp ha
  exact addr_mem_addrs hb

theorem Block.size_pos (b : Block) : 0 < b.size := Nat.lt_of_lt_of_le (by decide) b.fits

end Addrs

/-! ## Shapes read only their own fields -/

section Congr

variable {H H' : Typed} {bs : List Block} {fs fs' : List Nat}

theorem Typed.next_congr {a : Nat} (hh : H'.head = H.head) (ht : H'.totalSize = H.totalSize)
    (hw : H'.field a .sizeAndFree = H.field a .sizeAndFree) : H'.next a = H.next a := by
  unfold Typed.next Typed.size
  rw [hh, ht, hw]

theorem BlockShape.congr (h : BlockShape H bs) (hh : H'.head = H.head)
    (ht : H'.totalSize = H.totalSize)
    (hw : ∀ a ∈ addrs bs, H'.field a .sizeAndFree = H.field a .sizeAndFree)
    (hp : ∀ a ∈ addrs bs, H'.field a .prev = H.field a .prev) : BlockShape H' bs where
  tiles := by rw [hh, ht]; exact h.tiles
  word b hb := by rw [hw _ (addr_mem_addrs hb)]; exact h.word b hb
  ring := chain_imp_mem h.ring fun x hx y hy hxy =>
    ⟨by rw [Typed.next_congr hh ht (hw x hx)]; exact hxy.1, by rw [hp y hy]; exact hxy.2⟩

theorem FreeShape.congr (h : FreeShape H fs) (hl : H'.freeList = H.freeList)
    (hn : ∀ a ∈ fs, H'.field a .nextFree = H.field a .nextFree)
    (hp : ∀ a ∈ fs, H'.field a .prevFree = H.field a .prevFree) : FreeShape H' fs where
  ring := chain_imp_mem h.ring fun x hx y hy hxy =>
    ⟨by rw [hn x hx]; exact hxy.1, by rw [hp y hy]; exact hxy.2⟩
  nodup := h.nodup
  pos := h.pos
  freeList := by rw [hl]; exact h.freeList

theorem FreeShape.append_comm (l₁ : List Nat) {l₂ : List Nat} (h : FreeShape H (l₁ ++ l₂)) :
    FreeShape H (l₂ ++ l₁) where
  ring := chain_append_comm.mp h.ring
  nodup := List.nodup_append_comm.mp h.nodup
  pos a ha := h.pos a (by simp only [List.mem_append] at ha ⊢; exact ha.symm)
  freeList := by
    have := h.freeList
    simp only [List.append_eq_nil_iff, List.mem_append] at this ⊢
    tauto

end Congr

end Chronos.Salloc
