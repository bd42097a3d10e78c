import Chronos.Lib.Fold
import Chronos.Salloc.Allocate

/-!
# What the operations leave alone

On a damaged heap, or with headers that overlap, the memory is no table of records any
more. An operation that returns has still stored only a few words, and every other word
is as it was.
-/

namespace Chronos.Salloc

open Chronos.Lib Chronos.Lib.Ring

namespace Heap

/-- The 8 bytes at an address. -/
@[irreducible] def cell (s : Heap) (x : Nat) : Nat := s.mem.peek 8 x

theorem typed_field_eq (s : Heap) (a : Nat) (f : Field) :
    s.typed.field a f = s.cell (a + f.offset) := by
  unfold cell
  rfl

/-- `s'` is `s` but for the words at the addresses `T`, and for `free_list`. -/
structure Changes (s s' : Heap) (T : List Nat) : Prop where
  head : s'.head = s.head
  totalSize : s'.totalSize = s.totalSize
  mapped : s'.mem.mapped = s.mem.mapped
  cells : ∀ x, (∀ y ∈ T, x + 8 ≤ y ∨ y + 8 ≤ x) → s'.cell x = s.cell x

variable {s s₁ s' : Heap} {T T' : List Nat} {a v x : Nat} {f : Field}

theorem cell_lt : s.cell x < 2 ^ 64 := by
  unfold cell
  exact Memory.peek_lt

theorem Changes.trans (h : Changes s s₁ T) (h' : Changes s₁ s' T') : Changes s s' (T ++ T') where
  head := h'.head.trans h.head
  totalSize := h'.totalSize.trans h.totalSize
  mapped := h'.mapped.trans h.mapped
  cells x hx := by
    rw [h'.cells x fun y hy => hx y (List.mem_append_right _ hy),
      h.cells x fun y hy => hx y (List.mem_append_left _ hy)]

/-- Setting `free_list` stores nothing. -/
theorem changes_freeList (s : Heap) (x : Nat) : Changes s { s with freeList := x } [] :=
  ⟨rfl, rfl, rfl, fun _ _ => by unfold cell; rfl⟩

/-! ## Loads and stores -/

theorem load_ok (h : s.load a f = .ok v) : v = s.cell (a + f.offset) := by
  unfold load at h
  unfold cell
  split at h
  · exact (Except.ok.inj h).symm
  · cases h

theorem store_ok (h : s.store a f v = .ok s') :
    Changes s s' [a + f.offset] ∧ s'.cell (a + f.offset) = v % 2 ^ 64 := by
  unfold store at h
  unfold cell
  split at h
  · obtain rfl := Except.ok.inj h
    refine ⟨⟨rfl, rfl, Memory.poke_mapped, fun x hx => ?_⟩, Memory.peek_poke_self⟩
    unfold cell
    exact Memory.peek_poke_disjoint (hx _ (List.mem_singleton_self _))
  · cases h

theorem store_freeList (h : s.store a f v = .ok s') : s'.freeList = s.freeList := by
  unfold store at h
  split at h
  · obtain rfl := Except.ok.inj h
    rfl
  · cases h

/-- The size in a size word. -/
def sizeAt (s : Heap) (a : Nat) : Nat := s.cell a - s.cell a % 2

theorem size_ok (h : s.size a = .ok v) : v = s.sizeAt a := by
  obtain ⟨w, hw, h⟩ := bind_eq_ok.mp h
  obtain rfl := load_ok hw
  exact (Except.ok.inj h).symm

theorem free_ok (h : s.free a = .ok v) : v = s.cell a % 2 := by
  obtain ⟨w, hw, h⟩ := bind_eq_ok.mp h
  obtain rfl := load_ok hw
  exact (Except.ok.inj h).symm

theorem setSize_ok (hv : v < 2 ^ 64) (h : s.setSize a v = .ok s') :
    Changes s s' [a] ∧ s'.cell a = s.cell a % 2 + (v - v % 2) := by
  obtain ⟨w, hw, h⟩ := bind_eq_ok.mp h
  obtain rfl := free_ok hw
  obtain ⟨hchanges, hcell⟩ := store_ok h
  refine ⟨hchanges, hcell.trans (Nat.mod_eq_of_lt ?_)⟩
  omega

theorem setFree_ok (h : s.setFree a v = .ok s') :
    Changes s s' [a] ∧ s'.cell a = s.sizeAt a + v % 2 := by
  obtain ⟨w, hw, h⟩ := bind_eq_ok.mp h
  obtain rfl := size_ok hw
  obtain ⟨hchanges, hcell⟩ := store_ok h
  refine ⟨hchanges, hcell.trans (Nat.mod_eq_of_lt ?_)⟩
  have := cell_lt (s := s) (x := a)
  unfold sizeAt
  omega

/-- The block after the one at `a`. -/
def nextAt (s : Heap) (a : Nat) : Nat :=
  if s.head + s.totalSize ≤ a + s.sizeAt a then s.head else a + s.sizeAt a

theorem next_ok (h : s.next a = .ok v) : v = s.nextAt a := by
  obtain ⟨n, hn, h⟩ := bind_eq_ok.mp h
  obtain rfl := size_ok hn
  rw [← Except.ok.inj h]
  simp only [pastEnd, decide_eq_true_eq]
  rfl

/-! ## The two lists -/

variable {list node : Nat}

theorem insert_ok (h : s.insert list node = .ok s') :
    Changes s s' [node + 8, s.nextAt node + 8] ∧ s'.cell (s.nextAt node + 8) = node % 2 ^ 64 := by
  obtain ⟨s₁, hs₁, h⟩ := bind_eq_ok.mp h
  obtain ⟨n, hn, h⟩ := bind_eq_ok.mp h
  have h₁ := (store_ok hs₁).1
  have hsize : s₁.sizeAt node = s.sizeAt node := by
    unfold sizeAt
    rw [h₁.cells node]
    simp [Field.offset]
  have hnext : n = s.nextAt node := by
    rw [next_ok hn, nextAt, nextAt, hsize, h₁.head, h₁.totalSize]
  subst hnext
  obtain ⟨h₂, hcell⟩ := store_ok h
  exact ⟨h₁.trans h₂, hcell⟩

/-- Two headers do not overlap, unless they are one. -/
def Clear (a b : Nat) : Prop := a = b ∨ a + sizeofSallocT ≤ b ∨ b + sizeofSallocT ≤ a

/-- `insert_free` behind a header that lies before the new one. -/
theorem insertFree_ok (hlist : list + sizeofSallocT ≤ node)
    (hnf : Clear (s.cell (list + 16)) list) (hnf' : Clear (s.cell (list + 16)) node)
    (hne : s.cell (list + 16) ≠ node) (h : s.insertFree list node = .ok s') :
    Changes s s' [node + 24, node + 16, list + 16, s.cell (list + 16) + 24, node] ∧
      s'.cell (list + 16) = node % 2 ^ 64 ∧
      s'.cell (list + 24) =
        (if s.cell (list + 16) = list then node % 2 ^ 64 else s.cell (list + 24)) ∧
      s'.cell node = s.sizeAt node + 1 := by
  have hhdr : sizeofSallocT = 32 := rfl
  unfold Clear at hnf hnf'
  obtain ⟨s₁, hs₁, h⟩ := bind_eq_ok.mp h
  obtain ⟨nf, hload, h⟩ := bind_eq_ok.mp h
  obtain ⟨s₂, hs₂, h⟩ := bind_eq_ok.mp h
  obtain ⟨s₃, hs₃, h⟩ := bind_eq_ok.mp h
  obtain ⟨nf', hload', h⟩ := bind_eq_ok.mp h
  obtain ⟨s₄, hs₄, h⟩ := bind_eq_ok.mp h
  obtain ⟨h₁, -⟩ := store_ok hs₁
  obtain ⟨h₂, hnode⟩ := store_ok hs₂
  obtain ⟨h₃, hcell⟩ := store_ok hs₃
  obtain ⟨h₄, hback⟩ := store_ok hs₄
  obtain ⟨h₅, hword⟩ := setFree_ok h
  simp only [Field.offset] at h₁ h₂ h₃ h₄ hnode hcell hback
  have hnfeq : nf = s.cell (list + 16) := by
    rw [load_ok hload]
    exact h₁.cells _ (by simp [Field.offset]; omega)
  have hlt := cell_lt (s := s) (x := list + 16)
  -- the link just stored is the one followed
  have hnfeq' : nf' = s.cell (list + 16) := by
    rw [load_ok hload']
    refine (h₃.cells _ (by simp [Field.offset]; omega)).trans ?_
    rw [Field.offset, hnode, hnfeq, Nat.mod_eq_of_lt hlt]
  subst hnfeq'
  refine ⟨(((h₁.trans h₂).trans h₃).trans h₄).trans h₅, ?_, ?_, ?_⟩
  · rw [h₅.cells _ (by simp; omega), h₄.cells _ (by simp; omega), hcell]
  · rw [h₅.cells _ (by simp; omega)]
    split
    · rename_i heq
      rw [heq] at hback
      exact hback
    · rw [h₄.cells _ (by simp; omega), h₃.cells _ (by simp), h₂.cells _ (by simp; omega),
        h₁.cells _ (by simp; omega)]
  · have hsame : s₄.cell node = s.cell node := by
      rw [h₄.cells _ (by simp; omega), h₃.cells _ (by simp; omega), h₂.cells _ (by simp),
        h₁.cells _ (by simp)]
    rw [hword, sizeAt, sizeAt, hsame]

/-- The last three stores of `list_remove_free`. -/
theorem removed_ok (h : (do
      let s ← s.store node .prevFree 0
      let s ← s.store node .nextFree 0
      s.setFree node 0) = Except.ok s') :
    Changes s s' [node + 24, node + 16, node] ∧ s'.cell node = s.sizeAt node := by
  obtain ⟨s₁, hs₁, h⟩ := bind_eq_ok.mp h
  obtain ⟨s₂, hs₂, h⟩ := bind_eq_ok.mp h
  obtain ⟨h₁, -⟩ := store_ok hs₁
  obtain ⟨h₂, -⟩ := store_ok hs₂
  obtain ⟨h₃, hword⟩ := setFree_ok h
  have hsame : s₂.cell node = s.cell node := by
    rw [h₂.cells _ (by simp [Field.offset]), h₁.cells _ (by simp [Field.offset])]
  refine ⟨(h₁.trans h₂).trans h₃, ?_⟩
  rw [hword, sizeAt, sizeAt, hsame]
  rfl

/-- `list_remove_free`, with links that do not overlap the header. -/
theorem listRemoveFree_ok {combined : Bool} (hnf : Clear (s.cell (node + 16)) node)
    (hpf : Clear (s.cell (node + 24)) node) (h : s.listRemoveFree node combined = .ok s') :
    Changes s s' [s.cell (node + 24) + 16, s.cell (node + 16) + 24, node + 24, node + 16, node] ∧
      s'.cell node = s.sizeAt node := by
  have hhdr : sizeofSallocT = 32 := rfl
  unfold Clear at hnf hpf
  obtain ⟨pf, hpf₁, h⟩ := bind_eq_ok.mp h
  obtain ⟨nf, hnf₁, h⟩ := bind_eq_ok.mp h
  obtain rfl := load_ok hpf₁
  obtain rfl := load_ok hnf₁
  obtain ⟨s₁, hs₁, h⟩ := bind_eq_ok.mp h
  obtain ⟨nf', hnf₂, h⟩ := bind_eq_ok.mp h
  obtain ⟨pf', hpf₂, h⟩ := bind_eq_ok.mp h
  obtain ⟨s₂, hs₂, h⟩ := bind_eq_ok.mp h
  -- whatever becomes of `free_list`, the same three stores follow
  obtain ⟨s₃, h₃, htail⟩ : ∃ s₃, Changes s₂ s₃ [] ∧ (do
      let s ← s₃.store node .prevFree 0
      let s ← s.store node .nextFree 0
      s.setFree node 0) = Except.ok s' := by
    simp only at h
    split at h
    · obtain ⟨x, -, h⟩ := bind_eq_ok.mp h
      split at h
      · exact ⟨_, changes_freeList _ _, h⟩
      · split at h
        all_goals
          obtain ⟨x, -, h⟩ := bind_eq_ok.mp h
          exact ⟨_, changes_freeList _ _, h⟩
    · exact ⟨_, ⟨rfl, rfl, rfl, fun _ _ => rfl⟩, h⟩
  clear h
  obtain ⟨h₁, hlink⟩ := store_ok hs₁
  obtain ⟨h₂, -⟩ := store_ok hs₂
  obtain ⟨h₄, hword⟩ := removed_ok htail
  simp only [Field.offset] at h₁ h₂ hlink hnf₂
  have hlt := cell_lt (s := s) (x := node + 16)
  -- the first store may be to the header itself, and then it changes nothing
  have hnf' : nf' = s.cell (node + 16) := by
    rw [load_ok hnf₂, Field.offset]
    rcases hpf with heq | hfar
    · rw [heq] at hlink
      rw [hlink, Nat.mod_eq_of_lt hlt]
    · exact h₁.cells _ (by simp; omega)
  subst hnf'
  refine ⟨((h₁.trans h₂).trans h₃).trans h₄, ?_⟩
  have hsame : s₃.cell node = s.cell node := by
    rw [h₃.cells _ (by simp), h₂.cells _ (by simp; omega), h₁.cells _ (by simp; omega)]
  rw [hword, sizeAt, sizeAt, hsame]

/-! ## Taking a region -/

variable {curr size t ptr b : Nat}

theorem takeWhole_ok (hnf : Clear (s.cell (curr + 16)) curr) (hpf : Clear (s.cell (curr + 24)) curr)
    (h : s.takeWhole curr = .ok (s', ptr)) : ptr = regionStart curr ∧
      Changes s s' [s.cell (curr + 24) + 16, s.cell (curr + 16) + 24, curr + 24, curr + 16, curr] ∧
      s'.cell curr = s.sizeAt curr := by
  obtain ⟨s₁, hs₁, h⟩ := bind_eq_ok.mp h
  obtain ⟨h₁, hword⟩ := listRemoveFree_ok hnf hpf hs₁
  obtain ⟨rfl, rfl⟩ := Prod.mk.inj (Except.ok.inj h)
  exact ⟨rfl, h₁, hword⟩

/-- A header at `x` overlaps nothing between the headers `curr` and `b`. -/
def Outside (curr b x : Nat) : Prop := x + sizeofSallocT ≤ curr ∨ b + sizeofSallocT ≤ x

/-- A free region `curr` in which a header `b` is put: the links of `curr` lead to itself
or out of the region, and `curr` is not before `head`. A pointer to `b` may be cut short,
when the region reaches past the end of the address space. -/
structure Splits (s : Heap) (curr b : Nat) : Prop where
  far : curr + sizeofSallocT ≤ b
  links : (s.cell (curr + 16) = curr ∧ s.cell (curr + 24) = curr) ∨
    (Outside curr b (s.cell (curr + 16)) ∧ Outside curr b (s.cell (curr + 24)))
  head : s.head = curr ∨ s.head + sizeofSallocT ≤ curr
  cut : b % 2 ^ 64 = b ∨ b % 2 ^ 64 + sizeofSallocT ≤ curr

/-- The block behind the new header. -/
def afterSplit (s : Heap) (b t : Nat) : Nat :=
  if s.head + s.totalSize ≤ b + (t - t % 2) then s.head else b + (t - t % 2)

/-- The size words that a split writes. -/
def splitSizes (s : Heap) (curr b t : Nat) : Except Fault Heap := do
  let s ← s.setSize b t
  let s ← s.setSize curr (sizeSub (← s.size curr) t)
  let s ← s.setFree b 1
  s.setFree curr 0

/-- A split writes size words, and then goes through the two lists. -/
theorem takeSplit_eq : s.takeSplit curr size t = (do
    let s ← s.splitSizes curr (regionStart curr + size) t
    let s ← s.insert curr (regionStart curr + size)
    let s ← s.insertFree curr (regionStart curr + size)
    let s ← s.listRemoveFree curr false
    return (s, regionStart curr)) := by
  simp only [takeSplit, splitSizes, bind_assoc]

theorem splitSizes_ok (hfar : curr + sizeofSallocT ≤ b) (ht : t < 2 ^ 64) {s₄ : Heap}
    (h : s.splitSizes curr b t = .ok s₄) :
    Changes s s₄ [b, curr] ∧ s₄.cell b = t - t % 2 + 1 ∧
      s₄.cell curr = sizeSub (s.sizeAt curr) t - sizeSub (s.sizeAt curr) t % 2 := by
  have hhdr : sizeofSallocT = 32 := rfl
  obtain ⟨s₁, hs₁, h⟩ := bind_eq_ok.mp h
  obtain ⟨n, hn, h⟩ := bind_eq_ok.mp h
  obtain ⟨s₂, hs₂, h⟩ := bind_eq_ok.mp h
  obtain ⟨s₃, hs₃, h⟩ := bind_eq_ok.mp h
  obtain ⟨h₁, hb₁⟩ := setSize_ok ht hs₁
  obtain ⟨h₂, hc₂⟩ := setSize_ok (sizeSub_lt _ _) hs₂
  obtain ⟨h₃, hb₃⟩ := setFree_ok hs₃
  obtain ⟨h₄, hc₄⟩ := setFree_ok h
  have hsize : n = s.sizeAt curr := by
    rw [size_ok hn, sizeAt, sizeAt, h₁.cells curr (by simp; omega)]
  subst hsize
  have hall := ((h₁.trans h₂).trans h₃).trans h₄
  refine ⟨⟨hall.head, hall.totalSize, hall.mapped, fun x hx => hall.cells x ?_⟩, ?_, ?_⟩
  · intro y hy
    refine hx y ?_
    simp only [List.cons_append, List.nil_append, List.mem_cons, List.not_mem_nil, or_false]
      at hy ⊢
    tauto
  · rw [h₄.cells b (by simp; omega), hb₃, sizeAt, h₂.cells b (by simp; omega), hb₁]
    omega
  · rw [hc₄, sizeAt, h₃.cells curr (by simp; omega), hc₂]
    omega

/-- Behind the new header comes what its size says. -/
theorem splitSizes_nextAt (hfar : curr + sizeofSallocT ≤ b) (ht : t < 2 ^ 64) {s₄ : Heap}
    (h : s.splitSizes curr b t = .ok s₄) : s₄.nextAt b = s.afterSplit b t := by
  obtain ⟨h₄, hb₄, -⟩ := splitSizes_ok hfar ht h
  rw [nextAt, afterSplit, h₄.head, h₄.totalSize, sizeAt, hb₄,
    show t - t % 2 + 1 - (t - t % 2 + 1) % 2 = t - t % 2 by omega]

/-- **A split** stores the two size words and a few links. The `prev` of the block behind
the new header is stored before the links of the free list. -/
theorem takeSplit_ok (hb : b = regionStart curr + size) (hsplits : s.Splits curr b)
    (ht : t < 2 ^ 64) (h : s.takeSplit curr size t = .ok (s', ptr)) :
    ptr = regionStart curr ∧ s'.cell b = t - t % 2 + 1 ∧
      s'.cell curr = sizeSub (s.sizeAt curr) t - sizeSub (s.sizeAt curr) t % 2 ∧
      ∃ s₁ pf, (pf = b % 2 ^ 64 ∨ pf = s.cell (curr + 24)) ∧
        Changes s s₁ [b, curr, b + 8, s.afterSplit b t + 8] ∧
        s₁.cell (s.afterSplit b t + 8) = b % 2 ^ 64 ∧
        Changes s₁ s' [b + 24, b + 16, curr + 16, s.cell (curr + 16) + 24, b, pf + 16,
          b % 2 ^ 64 + 24, curr + 24, curr + 16, curr] := by
  have hhdr : sizeofSallocT = 32 := rfl
  obtain ⟨hfar, hlinks, hhead, hcut⟩ := hsplits
  unfold Outside at hlinks
  rw [takeSplit_eq, ← hb] at h
  obtain ⟨s₄, hs₄, h⟩ := bind_eq_ok.mp h
  obtain ⟨s₅, hs₅, h⟩ := bind_eq_ok.mp h
  obtain ⟨s₆, hs₆, h⟩ := bind_eq_ok.mp h
  obtain ⟨s₇, hs₇, h⟩ := bind_eq_ok.mp h
  obtain ⟨rfl, rfl⟩ := Prod.mk.inj (Except.ok.inj h)
  obtain ⟨h₄, hb₄, hc₄⟩ := splitSizes_ok hfar ht hs₄
  obtain ⟨h₅, hback⟩ := insert_ok hs₅
  have hnext := splitSizes_nextAt hfar ht hs₄
  have hafter : s.afterSplit b t = s.head ∨ b ≤ s.afterSplit b t := by
    unfold afterSplit
    split <;> omega
  rw [hnext] at h₅ hback
  have hnf : s₅.cell (curr + 16) = s.cell (curr + 16) := by
    rw [h₅.cells _ (by simp; omega), h₄.cells _ (by simp; omega)]
  have hpf : s₅.cell (curr + 24) = s.cell (curr + 24) := by
    rw [h₅.cells _ (by simp; omega), h₄.cells _ (by simp; omega)]
  obtain ⟨h₆, hnf₆, hpf₆, hb₆⟩ := insertFree_ok hfar (by rw [hnf]; unfold Clear; omega)
    (by rw [hnf]; unfold Clear; omega) (by rw [hnf]; omega) hs₆
  rw [hnf] at h₆ hpf₆
  obtain ⟨h₇, hc₇⟩ := listRemoveFree_ok (by rw [hnf₆]; unfold Clear; omega)
    (by rw [hpf₆, hpf]; unfold Clear; split <;> omega) hs₇
  rw [hnf₆] at h₇
  have hpf₇ : s₆.cell (curr + 24) = b % 2 ^ 64 ∨ s₆.cell (curr + 24) = s.cell (curr + 24) := by
    rw [hpf₆, hpf]
    split
    · exact .inl rfl
    · exact .inr rfl
  have hpfout : s₆.cell (curr + 24) = b % 2 ^ 64 ∨ s₆.cell (curr + 24) + 32 ≤ curr ∨
      b + 32 ≤ s₆.cell (curr + 24) := by
    rw [hpf₆, hpf]
    split <;> omega
  have hb₅ : s₅.cell b = t - t % 2 + 1 := by
    rw [h₅.cells _ (by simp; omega), hb₄]
  refine ⟨rfl, ?_, ?_, s₅, s₆.cell (curr + 24), hpf₇, h₄.trans h₅, hback, h₆.trans h₇⟩
  · rw [h₇.cells b (by simp; omega), hb₆, sizeAt, hb₅]
    omega
  · have hc₆ : s₆.cell curr = s₄.cell curr := by
      rw [h₆.cells _ (by simp; omega), h₅.cells _ (by simp; omega)]
    rw [hc₇, sizeAt, hc₆, hc₄]
    omega

end Heap

/-! ## Blocks in memory -/

section Blocks

variable {s s' : Heap} {p q bs bs' : List Block} {b c : Block} {a : Nat}

/-- A block of the heap seen in its memory. -/
theorem Formed.sizeAt_eq (h : Formed s bs) (hc : c ∈ bs) : s.sizeAt c.addr = c.size := by
  have := h.blocks.size_eq hc
  unfold Typed.size at this
  rw [Heap.typed_field_eq] at this
  exact this

/-- A heap is the heap of one list of blocks only. -/
theorem Formed.unique (h : Formed s bs) (h' : Formed s bs') : bs = bs' := by
  refine h.blocks.tiles.unique h'.blocks.tiles (fun b _ => b.size_pos) (fun b _ => b.size_pos)
    fun a ha b hb hab => ?_
  have hsize : a.size = b.size := by
    rw [← h.blocks.size_eq ha, ← h'.blocks.size_eq hb, hab]
  have hfree : a.free.toNat = b.free.toNat := by
    rw [← h.blocks.free_eq ha, ← h'.blocks.free_eq hb, hab]
  obtain ⟨addr, size, free, fits, even⟩ := a
  obtain ⟨addr', size', free', fits', even'⟩ := b
  obtain rfl : addr = addr' := hab
  obtain rfl : size = size' := hsize
  obtain rfl : free = free' := by
    cases free <;> cases free' <;> first | rfl | cases hfree
  rfl

/-- As far as the size words are the same, so are the blocks. -/
theorem Formed.walk (h : Formed s (p ++ q)) (h' : Formed s' bs') (hhead : s'.head = s.head)
    (htotal : s.totalSize ≤ s'.totalSize) (hwords : ∀ b ∈ p, s'.sizeAt b.addr = b.size) :
    ∃ mid p' q', bs' = p' ++ q' ∧ Tiles Block.addr Block.size s.head mid p ∧
      Tiles Block.addr Block.size s.head mid p' ∧
      Tiles Block.addr Block.size mid (s.head + s.totalSize) q ∧
      Tiles Block.addr Block.size mid (s'.head + s'.totalSize) q' := by
  obtain ⟨mid, hp, hq⟩ := Tiles.append_iff.mp h.blocks.tiles
  have hend : mid ≤ s.head + s.totalSize := hq.le
  have htiles' : Tiles Block.addr Block.size s.head (s'.head + s'.totalSize) bs' :=
    hhead ▸ h'.blocks.tiles
  obtain ⟨p', q', rfl, hp', hq'⟩ := Tiles.walk hp htiles' (by omega) (fun b _ => b.size_pos)
    fun a ha b hb hab => by rw [← hwords a ha, hab, h'.sizeAt_eq hb]
  exact ⟨mid, p', q', rfl, hp, hp', hq, hq'⟩

/-- The headers and the links of a well-formed heap are apart from a size word. -/
theorem Formed.apart (h : Formed s bs) (hb : b ∈ bs) (ha : a ∈ addrs bs) :
    ∀ o, 8 ≤ o → o ≤ 24 → b.addr + 8 ≤ a + o ∨ a + o + 8 ≤ b.addr := by
  intro o hlo hhi
  have hhdr : sizeofSallocT = 32 := rfl
  rcases h.blocks.far a ha b.addr (addr_mem_addrs hb) with rfl | hfar | hfar
  all_goals omega

theorem Formed.head_mem (h : Formed s bs) (hne : bs ≠ []) : s.head ∈ addrs bs := by
  obtain ⟨p, b, rfl⟩ := List.eq_nil_or_concat' bs |>.resolve_left hne
  rw [← h.next_last]
  exact h.blocks.next_mem (by simp)

end Blocks

end Chronos.Salloc
