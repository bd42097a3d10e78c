import Chronos.Salloc.Blocks

/-!
# What the list operations do to the shapes

`insertFree` and `listRemoveFree` edit the free ring and flip one free flag;
splitting a block and merging two neighbours edit the tiling and the `prev`
ring. Each is stated once, for a block at any position, and the edit of a ring
is the local one of `Chronos.Lib.Ring`.
-/

namespace Chronos.Salloc

open Chronos.Lib Chronos.Lib.Ring

section Fields

variable {H : Typed} {a x node : Nat} {combined : Bool}

theorem Typed.setFree_size (v : Nat) : (H.setFree a v).size x = H.size x := by
  unfold Typed.setFree Typed.size
  rw [Typed.set_field]
  split
  · rename_i h
    rw [h.1]
    omega
  · rfl

theorem Typed.setFree_word (v : Nat) :
    (H.setFree a v).field a .sizeAndFree = H.size a + v % 2 := Typed.set_field_same

theorem Typed.setSize_size {n : Nat} : (H.setSize a n).size a = n - n % 2 := by
  unfold Typed.setSize Typed.size Typed.free
  rw [Typed.set_field_same]
  omega

theorem Typed.setFree_next (v : Nat) : (H.setFree a v).next x = H.next x := by
  unfold Typed.next
  rw [Typed.setFree_size]
  rfl

theorem Typed.set_size {f : Field} {v : Nat} (hf : f ≠ .sizeAndFree) :
    (H.set a f v).size x = H.size x := by
  unfold Typed.size
  rw [Typed.set_field_ne_field hf.symm]

theorem Typed.insertFree_size : (H.insertFree x node).size a = H.size a := by
  unfold Typed.insertFree
  rw [Typed.setFree_size, Typed.set_size (by decide), Typed.set_size (by decide),
    Typed.set_size (by decide), Typed.set_size (by decide)]

theorem Typed.insertFree_prev : (H.insertFree x node).field a .prev = H.field a .prev := by
  simp only [Typed.insertFree, Typed.setFree, Typed.set_field, reduceCtorEq, and_false, if_false]

theorem Typed.insertFree_nextFree :
    (H.insertFree x node).field a .nextFree =
      if a = x then node else if a = node then H.field x .nextFree else H.field a .nextFree := by
  simp only [Typed.insertFree, Typed.setFree, Typed.set_field, reduceCtorEq, and_false,
    and_true, if_false]

theorem Typed.insertFree_prevFree :
    (H.insertFree x node).field a .prevFree =
      if a = H.field x .nextFree then node else if a = node then x else H.field a .prevFree := by
  simp only [Typed.insertFree, Typed.setFree, Typed.set_field, reduceCtorEq, and_false,
    and_true, if_false]

theorem Typed.listRemoveFree_nextFree :
    (H.listRemoveFree node combined).field a .nextFree =
      if a = node then 0 else if a = H.field node .prevFree then H.field node .nextFree
      else H.field a .nextFree := by
  simp only [Typed.listRemoveFree, Typed.setFree, Typed.set_field, reduceCtorEq, and_false,
    and_true, if_false]

theorem Typed.listRemoveFree_prevFree :
    (H.listRemoveFree node combined).field a .prevFree =
      if a = node then 0 else if a = H.field node .nextFree then H.field node .prevFree
      else H.field a .prevFree := by
  simp only [Typed.listRemoveFree, Typed.setFree, Typed.set_field, reduceCtorEq, and_false,
    and_true, if_false]

end Fields

/-! ## The free ring -/

section FreeRing

variable {H : Typed} {x node : Nat} {p q r : List Nat}

/-- A ring of one node. -/
theorem FreeShape.single (h0 : node ≠ 0) (hn : H.field node .nextFree = node)
    (hp : H.field node .prevFree = node) (hl : H.freeList = node) : FreeShape H [node] where
  ring := (Cycle.chain_singleton _ _).mpr ⟨hn, hp⟩
  nodup := List.nodup_singleton node
  pos a ha := by rwa [List.mem_singleton.mp ha]
  freeList := Or.inr (List.mem_singleton.mpr hl)

/-- Inserting a free node after `x`. -/
theorem FreeShape.insertFree_head (h : FreeShape H (x :: r)) (hnode : node ∉ x :: r)
    (h0 : node ≠ 0) : FreeShape (H.insertFree x node) (x :: node :: r) := by
  obtain ⟨nf, hnf, hlink⟩ := chain_exists_next h.ring (a := x) List.mem_cons_self
  have hx : x ∉ r := (List.nodup_cons.mp h.nodup).1
  have hne : node ≠ x := fun e => hnode (by simp [e])
  have hnfne : node ≠ nf := fun e => hnode (by rw [e]; exact hnf)
  refine ⟨chain_insert h.ring ?_ ?_ ?_, ?_, ?_, ?_⟩
  · constructor
    · rw [Typed.insertFree_nextFree, if_pos rfl]
    · rw [Typed.insertFree_prevFree, hlink.1, if_neg hnfne, if_pos rfl]
  · intro b hb hxb
    constructor
    · rw [Typed.insertFree_nextFree, if_neg hne, if_pos rfl]
      exact hxb.1
    · rw [Typed.insertFree_prevFree, hxb.1, if_pos rfl]
  · intro u hu v hv huv
    have hux : u ≠ x := fun e => hx (e ▸ hu)
    have hun : u ≠ node := fun e => hnode (e ▸ List.mem_cons_of_mem _ hu)
    constructor
    · rw [Typed.insertFree_nextFree, if_neg hux, if_neg hun]
      exact huv.1
    · have hvnf : v ≠ nf := by
        rintro rfl
        exact hux (huv.2.symm.trans hlink.2)
      have hvn : v ≠ node := fun e => hnode (e ▸ hv)
      rw [Typed.insertFree_prevFree, hlink.1, if_neg hvnf, if_neg hvn]
      exact huv.2
  · rw [List.nodup_cons, List.nodup_cons] at *
    simp only [List.mem_cons, not_or] at hnode ⊢
    exact ⟨⟨fun e => hne e.symm, hx⟩, hnode.2, (List.nodup_cons.mp h.nodup).2⟩
  · intro a ha
    rcases List.mem_cons.mp ha with rfl | ha
    · exact h.pos a List.mem_cons_self
    · rcases List.mem_cons.mp ha with rfl | ha
      · exact h0
      · exact h.pos a (List.mem_cons_of_mem _ ha)
  · right
    have hfl : H.freeList ∈ x :: r := by
      rcases h.freeList with ⟨hnil, -⟩ | hmem
      · cases hnil
      · exact hmem
    show H.freeList ∈ _
    simp only [List.mem_cons] at hfl ⊢
    tauto

/-- Removing a node from the free ring; `free_list` moves off it. -/
theorem FreeShape.listRemoveFree_head (h : FreeShape H (node :: r)) (combined : Bool) :
    FreeShape (H.listRemoveFree node combined) r := by
  obtain ⟨nf, hnf, hnext⟩ := chain_exists_next h.ring (a := node) List.mem_cons_self
  obtain ⟨pf, hpf, hprev⟩ := chain_exists_prev h.ring (a := node) List.mem_cons_self
  have hnode : node ∉ r := (List.nodup_cons.mp h.nodup).1
  refine ⟨chain_remove h.ring ?_ ?_, (List.nodup_cons.mp h.nodup).2,
    fun a ha => h.pos a (List.mem_cons_of_mem _ ha), ?_⟩
  · intro u hu v hv hun hnv
    have hu' : u ≠ node := fun e => hnode (e ▸ hu)
    have hv' : v ≠ node := fun e => hnode (e ▸ hv)
    constructor
    · rw [Typed.listRemoveFree_nextFree, if_neg hu', if_pos hun.2.symm]
      exact hnv.1
    · rw [Typed.listRemoveFree_prevFree, if_neg hv', if_pos hnv.1.symm]
      exact hun.2
  · intro u hu v hv huv
    have hu' : u ≠ node := fun e => hnode (e ▸ hu)
    have hv' : v ≠ node := fun e => hnode (e ▸ hv)
    have hupf : u ≠ pf := fun e => hv' (huv.1.symm.trans (e ▸ hprev.1))
    have hvnf : v ≠ nf := fun e => hu' (huv.2.symm.trans (e ▸ hnext.2))
    constructor
    · rw [Typed.listRemoveFree_nextFree, if_neg hu', hprev.2, if_neg hupf]
      exact huv.1
    · rw [Typed.listRemoveFree_prevFree, if_neg hv', hnext.1, if_neg hvnf]
      exact huv.2
  · have hfl : H.freeList ∈ node :: r := by
      rcases h.freeList with ⟨hnil, -⟩ | hmem
      · cases hnil
      · exact hmem
    show (r = [] ∧ H.freeListWithout node combined = 0) ∨ H.freeListWithout node combined ∈ r
    unfold Typed.freeListWithout
    by_cases hcur : node = H.freeList
    · rw [if_pos hcur, hprev.2, hnext.1]
      by_cases halone : node = pf
      · -- the only node of a ring is its own predecessor
        left
        refine ⟨?_, if_pos halone⟩
        have hself : nf = node := by rw [← hnext.1]; exact halone ▸ hprev.1
        cases r with
        | nil => rfl
        | cons c r =>
          have hring := h.ring
          rw [chain_cons, List.cons_append, List.isChain_cons_cons] at hring
          have : c = node := by rw [← hself, ← hnext.1]; exact hring.1.1.symm
          exact absurd (this ▸ List.mem_cons_self) hnode
      · right
        rw [if_neg halone]
        have hpfr : pf ∈ r := (List.mem_cons.mp hpf).resolve_left (Ne.symm halone)
        have hnfr : nf ∈ r := by
          refine (List.mem_cons.mp hnf).resolve_left fun e => halone ?_
          have hself := hnext.2
          rw [e, hprev.2] at hself
          exact hself.symm
        cases combined
        · exact hnfr
        · exact hpfr
    · right
      rw [if_neg hcur]
      exact (List.mem_cons.mp hfl).resolve_left (Ne.symm hcur)

theorem FreeShape.listRemoveFree (h : FreeShape H (p ++ node :: q)) (combined : Bool) :
    FreeShape (H.listRemoveFree node combined) (p ++ q) :=
  (FreeShape.listRemoveFree_head h.append_comm combined).append_comm

theorem FreeShape.links_mem (h : FreeShape H r) (hx : x ∈ r) :
    H.field x .nextFree ∈ r ∧ H.field x .prevFree ∈ r := by
  obtain ⟨nf, hnf, hnext⟩ := chain_exists_next h.ring hx
  obtain ⟨pf, hpf, hprev⟩ := chain_exists_prev h.ring hx
  rw [hnext.1, hprev.2]
  exact ⟨hnf, hpf⟩

end FreeRing

/-! ## The tiling and the `prev` ring -/

section BlockRing

variable {H : Typed} {p q bs : List Block} {b c : Block} {node x : Nat}

theorem BlockShape.size_eq (h : BlockShape H bs) (hb : b ∈ bs) : H.size b.addr = b.size := by
  unfold Typed.size
  rw [h.word b hb]
  have := b.even
  cases b.free <;> simp only [Bool.toNat_false, Bool.toNat_true] <;> omega

theorem BlockShape.free_eq (h : BlockShape H bs) (hb : b ∈ bs) : H.free b.addr = b.free.toNat := by
  unfold Typed.free
  rw [h.word b hb]
  have := b.even
  cases b.free <;> simp only [Bool.toNat_false, Bool.toNat_true] <;> omega

theorem BlockShape.nodup (h : BlockShape H bs) : (addrs bs).Nodup :=
  h.tiles.nodup_starts fun c _ => c.size_pos

theorem BlockShape.addr_ne (h : BlockShape H (p ++ b :: q)) (hc : c ∈ p ∨ c ∈ q) :
    c.addr ≠ b.addr := by
  have hn := h.nodup
  rw [addrs_append, addrs_cons, List.nodup_append, List.nodup_cons] at hn
  rcases hc with hc | hc
  · exact hn.2.2 _ (addr_mem_addrs hc) _ List.mem_cons_self
  · intro e
    exact hn.2.1.1 (e ▸ addr_mem_addrs hc)

/-- The successor of a block is a block. -/
theorem BlockShape.next_mem (h : BlockShape H bs) (hb : b ∈ bs) : H.next b.addr ∈ addrs bs := by
  obtain ⟨y, hy, hlink⟩ := chain_exists_next h.ring (addr_mem_addrs hb)
  rw [hlink.1]
  exact hy

theorem BlockShape.prev_next (h : BlockShape H bs) (hb : b ∈ bs) :
    H.field (H.next b.addr) .prev = b.addr := by
  obtain ⟨y, -, hlink⟩ := chain_exists_next h.ring (addr_mem_addrs hb)
  rw [hlink.1]
  exact hlink.2

theorem BlockShape.setFree (h : BlockShape H (p ++ b :: q)) (free : Bool) :
    BlockShape (H.setFree b.addr free.toNat) (p ++ b.withFree free :: q) where
  tiles := by
    have ht := h.tiles
    rw [Tiles.append_iff] at ht ⊢
    exact ht
  word c hc := by
    have hother : c ∈ p ∨ c ∈ q → (H.setFree b.addr free.toNat).field c.addr .sizeAndFree =
        c.size + c.free.toNat := by
      intro hc
      rw [Typed.setFree, Typed.set_field_ne_addr (h.addr_ne hc)]
      apply h.word c
      simp only [List.mem_append, List.mem_cons]
      tauto
    rcases List.mem_append.mp hc with hp | hc
    · exact hother (Or.inl hp)
    · rcases List.mem_cons.mp hc with rfl | hq
      · show (H.setFree b.addr free.toNat).field b.addr .sizeAndFree = b.size + free.toNat
        rw [Typed.setFree, Typed.set_field_same, h.size_eq (by simp)]
        cases free <;> rfl
      · exact hother (Or.inr hq)
  ring := by
    have hr := h.ring
    have ha : addrs (p ++ b.withFree free :: q) = addrs (p ++ b :: q) := by simp [Block.withFree]
    rw [ha]
    refine chain_imp_mem hr fun u _ v _ huv => ⟨?_, ?_⟩
    · rw [Typed.setFree_next]
      exact huv.1
    · rw [Typed.setFree_field_ne_field (by decide)]
      exact huv.2

theorem BlockShape.set_link (h : BlockShape H bs) {f : Field} (a v : Nat)
    (hw : f ≠ .sizeAndFree) (hp : f ≠ .prev) : BlockShape (H.set a f v) bs :=
  h.congr rfl rfl (fun _ _ => Typed.set_field_ne_field hw.symm)
    fun _ _ => Typed.set_field_ne_field hp.symm

theorem BlockShape.insertFree (h : BlockShape H (p ++ b :: q)) :
    BlockShape (H.insertFree x b.addr) (p ++ b.withFree true :: q) := by
  have h₁ := h.set_link (f := .prevFree) b.addr x (by decide) (by decide)
  have h₂ := h₁.set_link (f := .nextFree) b.addr (H.field x .nextFree) (by decide) (by decide)
  have h₃ := h₂.set_link (f := .nextFree) x b.addr (by decide) (by decide)
  have h₄ := h₃.set_link (f := .prevFree) (H.field x .nextFree) b.addr (by decide) (by decide)
  exact h₄.setFree true

/-- The four link stores of `list_remove_free` leave the blocks alone. -/
theorem BlockShape.unlink (h : BlockShape H bs) (node : Nat) :
    BlockShape ((((H.set (H.field node .prevFree) .nextFree (H.field node .nextFree)).set
      (H.field node .nextFree) .prevFree (H.field node .prevFree)).set
      node .prevFree 0).set node .nextFree 0) bs :=
  (((h.set_link _ _ (by decide) (by decide)).set_link _ _ (by decide) (by decide)).set_link
    _ _ (by decide) (by decide)).set_link _ _ (by decide) (by decide)

theorem BlockShape.listRemoveFree (h : BlockShape H (p ++ b :: q)) (combined : Bool) :
    BlockShape (H.listRemoveFree b.addr combined) (p ++ b.withFree false :: q) := by
  have h' := (h.unlink b.addr).setFree false
  exact h'.congr rfl rfl (fun _ _ => rfl) fun _ _ => rfl

/-- Taking a former block out of the free ring does not touch the blocks. -/
theorem BlockShape.listRemoveFree_other (h : BlockShape H bs) (hn : node ∉ addrs bs)
    (combined : Bool) : BlockShape (H.listRemoveFree node combined) bs := by
  refine (h.unlink node).congr rfl rfl ?_ ?_
  · intro a ha
    exact Typed.set_field_ne_addr fun e => hn (e ▸ ha)
  · intro a _
    exact Typed.set_field_ne_field (by decide)

/-- The blocks are at least a header apart, and lie inside the region. -/
theorem BlockShape.far (h : BlockShape H bs) :
    ∀ a ∈ addrs bs, ∀ b ∈ addrs bs, a = b ∨ a + sizeofSallocT ≤ b ∨ b + sizeofSallocT ≤ a := by
  intro a ha b hb
  obtain ⟨c, hc, rfl⟩ := mem_addrs.mp ha
  obtain ⟨d, hd, rfl⟩ := mem_addrs.mp hb
  by_cases hcd : c = d
  · exact Or.inl (by rw [hcd])
  · right
    have := c.fits
    have := d.fits
    rcases h.tiles.disjoint hc hd hcd with hlt | hlt <;> omega

theorem BlockShape.next_eq (h : BlockShape H bs) (hb : b ∈ bs) :
    H.next b.addr = if H.head + H.totalSize ≤ b.addr + b.size then H.head else b.addr + b.size := by
  unfold Typed.next
  rw [h.size_eq hb]

end BlockRing

/-! ## Splitting and merging blocks -/

/-- The lower part of a block cut `t` bytes before its end, handed out. -/
def Block.low (b : Block) (t : Nat) (heven : t % 2 = 0) (hle : t + sizeofSallocT ≤ b.size) :
    Block where
  addr := b.addr
  size := b.size - t
  free := false
  fits := by omega
  even := by have := b.even; omega

/-- The last `t` bytes of a block, free. -/
def Block.high (b : Block) (t : Nat) (heven : t % 2 = 0) (hfit : sizeofSallocT ≤ t) : Block where
  addr := b.addr + (b.size - t)
  size := t
  free := true
  fits := hfit
  even := heven

/-- Two neighbouring blocks as one. -/
def Block.merge (b c : Block) : Block where
  addr := b.addr
  size := b.size + c.size
  free := b.free
  fits := Nat.le_trans b.fits (Nat.le_add_right _ _)
  even := by have := b.even; have := c.even; omega

section BlockFields

variable {b c : Block} {t : Nat} {heven : t % 2 = 0} {hle : t + sizeofSallocT ≤ b.size}
  {hfit : sizeofSallocT ≤ t}

@[simp] theorem Block.low_addr : (b.low t heven hle).addr = b.addr := rfl
@[simp] theorem Block.low_size : (b.low t heven hle).size = b.size - t := rfl
@[simp] theorem Block.low_free : (b.low t heven hle).free = false := rfl
@[simp] theorem Block.high_addr : (b.high t heven hfit).addr = b.addr + (b.size - t) := rfl
@[simp] theorem Block.high_size : (b.high t heven hfit).size = t := rfl
@[simp] theorem Block.high_free : (b.high t heven hfit).free = true := rfl
@[simp] theorem Block.merge_addr : (b.merge c).addr = b.addr := rfl
@[simp] theorem Block.merge_size : (b.merge c).size = b.size + c.size := rfl
@[simp] theorem Block.merge_free : (b.merge c).free = b.free := rfl

end BlockFields

/-- The size words `_salloc` writes to cut the block at `a` in two. -/
def Typed.cut (H : Typed) (a bottom t : Nat) : Typed :=
  (((H.setSize bottom t).setSize a (sizeSub (H.size a) t)).setFree bottom 1).setFree a 0

section Split

variable {H : Typed} {p q bs : List Block} {b c : Block} {t : Nat}

@[simp] theorem Typed.insert_head {list node : Nat} : (H.insert list node).head = H.head := rfl

@[simp] theorem Typed.insert_totalSize {list node : Nat} :
    (H.insert list node).totalSize = H.totalSize := rfl

theorem Typed.insert_field_word {list node x : Nat} :
    (H.insert list node).field x .sizeAndFree = H.field x .sizeAndFree := by
  unfold Typed.insert
  rw [Typed.set_field_ne_field (by decide), Typed.set_field_ne_field (by decide)]

theorem Typed.insert_next {list node x : Nat} : (H.insert list node).next x = H.next x :=
  Typed.next_congr rfl rfl Typed.insert_field_word

theorem Typed.insert_field_prev {list node x : Nat} :
    (H.insert list node).field x .prev =
      if x = H.next node then node else if x = node then list else H.field x .prev := by
  simp only [Typed.insert, Typed.set_field, and_true]

/-- A cut block's upper part is not at the start of any block. -/
theorem BlockShape.high_not_mem (h : BlockShape H bs) (hb : b ∈ bs) (h1 : 0 < t)
    (h2 : t < b.size) : b.addr + (b.size - t) ∉ addrs bs := by
  intro hmem
  obtain ⟨c, hc, he⟩ := mem_addrs.mp hmem
  by_cases hcb : c = b
  · subst hcb
    omega
  · have := c.size_pos
    rcases h.tiles.disjoint hc hb hcb with hd | hd <;> omega

@[simp] theorem Typed.cut_head {a bottom : Nat} : (H.cut a bottom t).head = H.head := rfl

@[simp] theorem Typed.cut_totalSize {a bottom : Nat} :
    (H.cut a bottom t).totalSize = H.totalSize := rfl

theorem Typed.cut_prev {a bottom x : Nat} :
    (H.cut a bottom t).field x .prev = H.field x .prev := by
  simp only [Typed.cut, Typed.setFree, Typed.setSize, Typed.set_field, reduceCtorEq, and_false,
    if_false]

/-- Cutting `t` bytes off the end of a block writes two size words. -/
theorem BlockShape.cut_word (h : BlockShape H bs) (hb : b ∈ bs) (heven : t % 2 = 0)
    (hle : t ≤ b.size) (hlt : b.size < 2 ^ 64) {bottom : Nat} (hbne : bottom ≠ b.addr) (x : Nat) :
    (H.cut b.addr bottom t).field x .sizeAndFree =
      if x = b.addr then b.size - t else if x = bottom then t + 1
      else H.field x .sizeAndFree := by
  have hbe := b.even
  have hsub : sizeSub (H.size b.addr) t = b.size - t := by
    rw [h.size_eq hb, sizeSub_eq_sub hle hlt]
  unfold Typed.cut
  rw [hsub]
  by_cases hx : x = b.addr
  · subst hx
    simp only [Typed.setFree, Typed.setSize, Typed.size, Typed.free, Typed.set_field, and_true,
      if_true, hbne.symm, if_false]
    omega
  · by_cases hx' : x = bottom
    · subst hx'
      simp only [Typed.setFree, Typed.setSize, Typed.size, Typed.free, Typed.set_field, and_true,
        if_true, hbne, if_false]
      omega
    · simp only [Typed.setFree, Typed.setSize, Typed.set_field, hx, hx', and_true, if_false]

/-- **Splitting.** Cutting a block and linking the new header in after it
leaves two blocks in its place. -/
theorem BlockShape.split (h : BlockShape H (p ++ b :: q)) (heven : t % 2 = 0)
    (hfit : sizeofSallocT ≤ t) (hle : t + sizeofSallocT ≤ b.size) (hlt : b.size < 2 ^ 64) :
    BlockShape ((H.cut b.addr (b.addr + (b.size - t)) t).insert b.addr (b.addr + (b.size - t)))
      (p ++ b.low t heven hle :: b.high t heven hfit :: q) := by
  have hb : b ∈ p ++ b :: q := by simp
  have hpos : 0 < sizeofSallocT := by decide
  have hbound := (h.tiles.bounds hb).2
  have hbe := b.even
  -- `bottom` is the new header; no block starts there yet
  obtain ⟨bottom, hbottom⟩ : ∃ x, x = b.addr + (b.size - t) := ⟨_, rfl⟩
  have hnew : bottom ∉ addrs (p ++ b :: q) := hbottom ▸ h.high_not_mem hb (by omega) (by omega)
  have hbne : bottom ≠ b.addr := fun e => hnew (e ▸ addr_mem_addrs hb)
  have hnbne : bottom ≠ H.next b.addr := fun e => hnew (e ▸ h.next_mem hb)
  have hword := h.cut_word hb heven (by omega) hlt hbne
  rw [← hbottom]
  -- the successors after the cut
  have hnb : (H.cut b.addr bottom t).next bottom = H.next b.addr := by
    rw [h.next_eq hb]
    unfold Typed.next Typed.size
    rw [hword, if_neg hbne, if_pos rfl, Typed.cut_head, Typed.cut_totalSize,
      show bottom + (t + 1 - (t + 1) % 2) = b.addr + b.size by omega]
  have hna : (H.cut b.addr bottom t).next b.addr = bottom := by
    unfold Typed.next Typed.size
    rw [hword, if_pos rfl, Typed.cut_head, Typed.cut_totalSize, if_neg (by omega)]
    omega
  have hnx : ∀ x, x ≠ b.addr → x ≠ bottom → (H.cut b.addr bottom t).next x = H.next x := by
    intro x hxa hxb
    exact Typed.next_congr rfl rfl (by rw [hword, if_neg hxa, if_neg hxb])
  refine ⟨?_, ?_, ?_⟩
  · have ht := h.tiles
    rw [Tiles.append_iff] at ht
    obtain ⟨mid, hp, hst, hq⟩ := ht
    rw [Typed.insert_head, Typed.insert_totalSize, Typed.cut_head, Typed.cut_totalSize,
      Tiles.append_iff]
    refine ⟨mid, hp, ?_⟩
    rw [Tiles.cons_iff, Tiles.cons_iff, Block.low_addr, Block.low_size, Block.high_addr,
      Block.high_size, show mid + (b.size - t) + t = mid + b.size by omega]
    exact ⟨hst, by omega, hq⟩
  · intro c hc
    rw [Typed.insert_field_word, hword]
    have hother : c ∈ p ∨ c ∈ q → (if c.addr = b.addr then b.size - t
        else if c.addr = bottom then t + 1 else H.field c.addr .sizeAndFree) =
        c.size + c.free.toNat := by
      intro hc
      have hcm : c ∈ p ++ b :: q := by
        simp only [List.mem_append, List.mem_cons]
        tauto
      have hcne : c.addr ≠ bottom := fun e => hnew (e ▸ addr_mem_addrs hcm)
      rw [if_neg (h.addr_ne hc), if_neg hcne]
      exact h.word c hcm
    simp only [List.mem_append, List.mem_cons] at hc
    rcases hc with hc | rfl | rfl | hc
    · exact hother (Or.inl hc)
    · exact if_pos rfl
    · have haddr : (b.high t heven hfit).addr = bottom := hbottom.symm
      rw [haddr, if_neg hbne, if_pos rfl]
      rfl
    · exact hother (Or.inr hc)
  · have hring := h.ring
    rw [addrs_append, addrs_cons, chain_append_comm] at hring
    have hgoal : addrs (p ++ b.low t heven hle :: b.high t heven hfit :: q) =
        addrs p ++ (b.addr :: bottom :: addrs q) := by
      simp [Block.low, Block.high, hbottom]
    rw [hgoal, chain_append_comm]
    have hnodup := h.nodup
    rw [addrs_append, addrs_cons, List.nodup_append_comm] at hnodup
    rw [addrs_append, addrs_cons] at hnew
    have hmem : ∀ x ∈ b.addr :: (addrs q ++ addrs p), x ≠ bottom := by
      intro x hx e
      apply hnew
      simp only [List.mem_cons, List.mem_append] at hx ⊢
      rw [← e]
      tauto
    refine chain_insert hring ?_ ?_ ?_
    · constructor
      · rw [Typed.insert_next, hna]
      · rw [Typed.insert_field_prev, hnb, if_neg hnbne, if_pos rfl]
    · intro y _ hby
      constructor
      · rw [Typed.insert_next, hnb]
        exact hby.1
      · rw [Typed.insert_field_prev, hnb, if_pos hby.1.symm]
    · intro u hu v hv huv
      have hua : u ≠ b.addr := fun e => (List.nodup_cons.mp hnodup).1 (e ▸ hu)
      constructor
      · rw [Typed.insert_next, hnx u hua (hmem u (List.mem_cons_of_mem _ hu))]
        exact huv.1
      · have hvn : v ≠ H.next b.addr := by
          rintro rfl
          exact hua (huv.2.symm.trans (h.prev_next hb))
        rw [Typed.insert_field_prev, hnb, if_neg hvn, if_neg (hmem v hv), Typed.cut_prev]
        exact huv.2

/-- **Merging.** Growing a block over its neighbour and taking the neighbour's
header out of the ring leaves one block in their place. -/
theorem BlockShape.merge (h : BlockShape H (p ++ b :: c :: q)) :
    BlockShape ((H.setSize b.addr (H.size b.addr + H.size c.addr)).listRemove c.addr)
      (p ++ b.merge c :: q) := by
  have hb : b ∈ p ++ b :: c :: q := by simp
  have hc : c ∈ p ++ b :: c :: q := by simp
  have hbe := b.even
  have hce := c.even
  have htiles := h.tiles
  rw [Tiles.append_iff] at htiles
  obtain ⟨mid, hp, hst, hst', hq⟩ := htiles
  have hne : c.addr ≠ b.addr := by
    have := b.size_pos
    omega
  -- the fields after the stores
  obtain ⟨K, hK⟩ : ∃ K, K = (H.setSize b.addr (H.size b.addr + H.size c.addr)).listRemove c.addr :=
    ⟨_, rfl⟩
  have hnc : (H.setSize b.addr (H.size b.addr + H.size c.addr)).next c.addr = H.next c.addr :=
    Typed.next_congr rfl rfl (Typed.set_field_ne_addr hne)
  have hfree : H.free b.addr = b.free.toNat := h.free_eq hb
  have hword : ∀ x, K.field x .sizeAndFree =
      if x = b.addr then b.size + c.size + b.free.toNat else H.field x .sizeAndFree := by
    intro x
    rw [hK, Typed.listRemove, Typed.set_field_ne_field (by decide),
      Typed.set_field_ne_field (by decide), Typed.setSize, Typed.set_field, h.size_eq hb,
      h.size_eq hc, hfree]
    simp only [and_true]
    split
    · omega
    · rfl
  have hprev : ∀ x, K.field x .prev =
      if x = c.addr then 0 else if x = H.next c.addr then H.field c.addr .prev
      else H.field x .prev := by
    intro x
    rw [hK, Typed.listRemove, hnc]
    simp only [Typed.set_field, Typed.setSize, and_true, reduceCtorEq, and_false, if_false]
  have hhead : K.head = H.head := by rw [hK]; rfl
  have htotal : K.totalSize = H.totalSize := by rw [hK]; rfl
  rw [← hK]
  refine ⟨?_, ?_, ?_⟩
  · rw [hhead, htotal, Tiles.append_iff]
    refine ⟨mid, hp, ?_⟩
    rw [Tiles.cons_iff, Block.merge_addr, Block.merge_size, ← Nat.add_assoc]
    exact ⟨hst, hq⟩
  · intro d hd
    rw [hword]
    have hother : d ∈ p ∨ d ∈ q → (if d.addr = b.addr then b.size + c.size + b.free.toNat
        else H.field d.addr .sizeAndFree) = d.size + d.free.toNat := by
      intro hd
      rw [if_neg (h.addr_ne (hd.imp id (List.mem_cons_of_mem _)))]
      apply h.word d
      simp only [List.mem_append, List.mem_cons]
      tauto
    simp only [List.mem_append, List.mem_cons] at hd
    rcases hd with hd | rfl | hd
    · exact hother (Or.inl hd)
    · exact if_pos rfl
    · exact hother (Or.inr hd)
  · have hring := h.ring
    have hold : addrs (p ++ b :: c :: q) = (addrs p ++ [b.addr]) ++ (c.addr :: addrs q) := by simp
    have hnew : addrs (p ++ b.merge c :: q) = (addrs p ++ [b.addr]) ++ addrs q := by
      simp [Block.merge]
    rw [hold, chain_append_comm, List.cons_append] at hring
    rw [hnew, chain_append_comm]
    have hcn : c.addr ∉ addrs q ++ (addrs p ++ [b.addr]) := by
      have hnodup := h.nodup
      rw [hold, List.nodup_append_comm, List.cons_append] at hnodup
      exact (List.nodup_cons.mp hnodup).1
    have hnb : H.next b.addr = c.addr := by
      have := hq.le
      have := c.size_pos
      rw [h.next_eq hb, if_neg (by omega)]
      omega
    have hKnb : K.next b.addr = H.next c.addr := by
      rw [h.next_eq hc]
      unfold Typed.next Typed.size
      rw [hword, if_pos rfl, hhead, htotal]
      have hsz : b.size + c.size + b.free.toNat - (b.size + c.size + b.free.toNat) % 2 =
          b.size + c.size := by
        cases b.free <;> simp only [Bool.toNat_false, Bool.toNat_true] <;> omega
      rw [hsz, show b.addr + (b.size + c.size) = c.addr + c.size by omega]
    refine chain_remove hring ?_ ?_
    · intro u hu v hv huc hcv
      have hub : u = b.addr := by
        rw [← huc.2, ← hnb]
        exact h.prev_next hb
      have hvc : v ≠ c.addr := fun e => hcn (e ▸ hv)
      constructor
      · rw [hub, hKnb]
        exact hcv.1
      · rw [hprev, if_neg hvc, if_pos hcv.1.symm]
        exact huc.2
    · intro u hu v hv huv
      have hvc : v ≠ c.addr := fun e => hcn (e ▸ hv)
      have hub : u ≠ b.addr := by
        rintro rfl
        exact hvc (huv.1.symm.trans hnb)
      have hvn : v ≠ H.next c.addr := by
        rintro rfl
        exact hcn (((h.prev_next hc).symm.trans huv.2) ▸ hu)
      constructor
      · rw [Typed.next_congr hhead htotal (by rw [hword, if_neg hub])]
        exact huv.1
      · rw [hprev, if_neg hvc, if_neg hvn]
        exact huv.2

end Split

end Chronos.Salloc
