import Chronos.Salloc.Defs

/-!
# Headers as records

The allocator reads and writes header fields through pointers, and its headers
lie at least 32 bytes apart. On such a set of headers the byte memory behaves
like a table of records (`Typed`): a store changes one field of one record.
`Views s A H` says that the memory of `s` holds, at the headers `A`, the
records of `H`. Each operation of the two lists is then a function on tables,
and runs without a fault when the pointers it follows are headers of `A`.
-/

namespace Chronos.Salloc

open Chronos.Lib

/-- The static variables, and the header fields as a table. -/
structure Typed where
  head : Nat
  totalSize : Nat
  freeList : Nat
  mapped : Nat → Bool
  field : Nat → Field → Nat

/-- The records found in memory when any address is read as a header. -/
def Heap.typed (s : Heap) : Typed where
  head := s.head
  totalSize := s.totalSize
  freeList := s.freeList
  mapped := s.mem.mapped
  field a f := s.mem.peek 8 (a + f.offset)

@[simp] theorem Heap.typed_head (s : Heap) : s.typed.head = s.head := rfl
@[simp] theorem Heap.typed_totalSize (s : Heap) : s.typed.totalSize = s.totalSize := rfl
@[simp] theorem Heap.typed_freeList (s : Heap) : s.typed.freeList = s.freeList := rfl

namespace Typed

def set (H : Typed) (a : Nat) (f : Field) (v : Nat) : Typed :=
  { H with field := fun x g => if x = a ∧ g = f then v else H.field x g }

def free (H : Typed) (a : Nat) : Nat := H.field a .sizeAndFree % 2

def size (H : Typed) (a : Nat) : Nat := H.field a .sizeAndFree - H.field a .sizeAndFree % 2

def setFree (H : Typed) (a b : Nat) : Typed := H.set a .sizeAndFree (H.size a + b % 2)

def setSize (H : Typed) (a n : Nat) : Typed := H.set a .sizeAndFree (H.free a + (n - n % 2))

def next (H : Typed) (a : Nat) : Nat :=
  if H.head + H.totalSize ≤ a + H.size a then H.head else a + H.size a

def insert (H : Typed) (list node : Nat) : Typed :=
  (H.set node .prev list).set (H.next node) .prev node

def listRemove (H : Typed) (node : Nat) : Typed :=
  (H.set (H.next node) .prev (H.field node .prev)).set node .prev 0

def insertFree (H : Typed) (list node : Nat) : Typed :=
  ((((H.set node .prevFree list).set node .nextFree (H.field list .nextFree)).set
    list .nextFree node).set (H.field list .nextFree) .prevFree node).setFree node 1

def freeListWithout (H : Typed) (node : Nat) (combined : Bool) : Nat :=
  if node = H.freeList then
    if node = H.field node .prevFree then 0
    else if combined then H.field node .prevFree
    else H.field node .nextFree
  else H.freeList

def listRemoveFree (H : Typed) (node : Nat) (combined : Bool) : Typed :=
  { ((((H.set (H.field node .prevFree) .nextFree (H.field node .nextFree)).set
      (H.field node .nextFree) .prevFree (H.field node .prevFree)).set
      node .prevFree 0).set node .nextFree 0).setFree node 0 with
    freeList := H.freeListWithout node combined }

def combine (H : Typed) (block next : Nat) : Typed :=
  ((H.setSize block (H.size block + H.size next)).listRemove next).listRemoveFree next true

variable {H : Typed} {a b : Nat} {f g : Field} {v : Nat}

@[simp] theorem set_head : (H.set a f v).head = H.head := rfl
@[simp] theorem set_totalSize : (H.set a f v).totalSize = H.totalSize := rfl
@[simp] theorem set_freeList : (H.set a f v).freeList = H.freeList := rfl
@[simp] theorem setFree_head : (H.setFree a v).head = H.head := rfl
@[simp] theorem setFree_totalSize : (H.setFree a v).totalSize = H.totalSize := rfl
@[simp] theorem setFree_freeList : (H.setFree a v).freeList = H.freeList := rfl
@[simp] theorem setSize_head : (H.setSize a v).head = H.head := rfl
@[simp] theorem setSize_totalSize : (H.setSize a v).totalSize = H.totalSize := rfl
@[simp] theorem setSize_freeList : (H.setSize a v).freeList = H.freeList := rfl

theorem set_field : (H.set a f v).field b g = if b = a ∧ g = f then v else H.field b g := rfl

@[simp] theorem set_field_same : (H.set a f v).field a f = v := by simp [set_field]

@[simp] theorem set_field_ne_field (h : g ≠ f) : (H.set a f v).field b g = H.field b g := by
  simp [set_field, h]

theorem set_field_ne_addr (h : b ≠ a) : (H.set a f v).field b g = H.field b g := by
  simp [set_field, h]

theorem setFree_field_ne_field (h : g ≠ .sizeAndFree) :
    (H.setFree a v).field b g = H.field b g := set_field_ne_field h

theorem setSize_field_ne_field (h : g ≠ .sizeAndFree) :
    (H.setSize a v).field b g = H.field b g := set_field_ne_field h

theorem set_next (h : f ≠ .sizeAndFree) : (H.set a f v).next b = H.next b := by
  unfold next size
  rw [set_field_ne_field h.symm]
  rfl

end Typed

/-- The memory of `s` holds the records of `H` at the headers `A`. -/
structure Views (s : Heap) (A : List Nat) (H : Typed) : Prop where
  head : s.head = H.head
  totalSize : s.totalSize = H.totalSize
  freeList : s.freeList = H.freeList
  mapping : s.mem.mapped = H.mapped
  far : ∀ a ∈ A, ∀ b ∈ A, a = b ∨ a + sizeofSallocT ≤ b ∨ b + sizeofSallocT ≤ a
  mapped : ∀ a ∈ A, s.mem.Mapped a sizeofSallocT
  lt : ∀ a ∈ A, a < 2 ^ 64
  peek : ∀ a ∈ A, ∀ f : Field, s.mem.peek 8 (a + f.offset) = H.field a f

/-- Write a header field, the address being mapped. -/
def Heap.put (s : Heap) (a : Nat) (f : Field) (v : Nat) : Heap :=
  { s with mem := s.mem.poke 8 (a + f.offset) v }

theorem Field.offset_le (f : Field) : f.offset + 8 ≤ sizeofSallocT := by cases f <;> decide

theorem Field.offset_disjoint {f g : Field} (h : f ≠ g) :
    f.offset + 8 ≤ g.offset ∨ g.offset + 8 ≤ f.offset := by
  cases f <;> cases g <;> first | exact absurd rfl h | decide

namespace Views

variable {s : Heap} {A : List Nat} {H : Typed} {a b : Nat} {f : Field} {v : Nat}

theorem field_lt (hv : Views s A H) (ha : a ∈ A) : H.field a f < 2 ^ 64 := by
  rw [← hv.peek a ha f]
  exact Memory.peek_lt

theorem mapped_field (hv : Views s A H) (ha : a ∈ A) (f : Field) :
    s.mem.Mapped (a + f.offset) 8 :=
  (hv.mapped a ha).mono (by omega) (by have := f.offset_le; omega)

theorem load (hv : Views s A H) (ha : a ∈ A) (f : Field) : s.load a f = .ok (H.field a f) := by
  rw [Heap.load, if_pos (hv.mapped_field ha f), hv.peek a ha f]

theorem store (hv : Views s A H) (ha : a ∈ A) : s.store a f v = .ok (s.put a f v) := by
  rw [Heap.store, if_pos (hv.mapped_field ha f)]
  rfl

/-- A store through a header pointer updates one field of one record. -/
theorem put (hv : Views s A H) (ha : a ∈ A) (hlt : v < 2 ^ 64) :
    Views (s.put a f v) A (H.set a f v) where
  head := hv.head
  totalSize := hv.totalSize
  freeList := hv.freeList
  mapping := Memory.poke_mapped.trans hv.mapping
  far := hv.far
  mapped b hb := Memory.mapped_poke.mpr (hv.mapped b hb)
  lt := hv.lt
  peek b hb g := by
    have hf := f.offset_le
    have hg := g.offset_le
    by_cases hab : b = a
    · subst hab
      by_cases hfg : g = f
      · subst hfg
        rw [Typed.set_field_same, Heap.put, Memory.peek_poke_self]
        exact Nat.mod_eq_of_lt hlt
      · rw [Typed.set_field_ne_field hfg, ← hv.peek b hb g]
        apply Memory.peek_poke_disjoint
        have := Field.offset_disjoint hfg
        omega
    · rw [Typed.set_field_ne_addr hab, ← hv.peek b hb g]
      apply Memory.peek_poke_disjoint
      have := hv.far a ha b hb
      omega

theorem setFreeList (hv : Views s A H) (x : Nat) :
    Views { s with freeList := x } A { H with freeList := x } :=
  { hv with freeList := rfl }

theorem free (hv : Views s A H) (ha : a ∈ A) : s.free a = .ok (H.free a) := by
  simp only [Heap.free, hv.load ha, Typed.free, bind, Except.bind, pure, Except.pure]

theorem size (hv : Views s A H) (ha : a ∈ A) : s.size a = .ok (H.size a) := by
  simp only [Heap.size, hv.load ha, Typed.size, bind, Except.bind, pure, Except.pure]

theorem next (hv : Views s A H) (ha : a ∈ A) : s.next a = .ok (H.next a) := by
  simp only [Heap.next, hv.size ha, Heap.pastEnd, hv.head, hv.totalSize, Typed.next,
    decide_eq_true_eq, bind, Except.bind, pure, Except.pure]

theorem setFree (hv : Views s A H) (ha : a ∈ A) :
    ∃ s', s.setFree a v = .ok s' ∧ Views s' A (H.setFree a v) := by
  refine ⟨s.put a .sizeAndFree (H.size a + v % 2), ?_, hv.put ha ?_⟩
  · simp only [Heap.setFree, hv.size ha, hv.store ha, bind, Except.bind]
  · have := hv.field_lt ha (f := .sizeAndFree)
    rw [Typed.size]
    omega

theorem setSize (hv : Views s A H) (ha : a ∈ A) (hlt : v < 2 ^ 64) :
    ∃ s', s.setSize a v = .ok s' ∧ Views s' A (H.setSize a v) := by
  refine ⟨s.put a .sizeAndFree (H.free a + (v - v % 2)), ?_, hv.put ha ?_⟩
  · simp only [Heap.setSize, hv.free ha, hv.store ha, bind, Except.bind]
  · rw [Typed.free]
    omega

theorem insert (hv : Views s A H) {list node : Nat} (hl : list ∈ A) (hn : node ∈ A)
    (hnext : H.next node ∈ A) :
    ∃ s', s.insert list node = .ok s' ∧ Views s' A (H.insert list node) := by
  have hv₁ := hv.put hn (f := .prev) (hv.lt list hl)
  have hnx : (H.set node .prev list).next node = H.next node := Typed.set_next (by decide)
  have hv₂ := hv₁.put (f := .prev) hnext (hv.lt node hn)
  refine ⟨_, ?_, hv₂⟩
  simp only [Heap.insert, hv.store hn, hv₁.next hn, hnx, hv₁.store hnext, bind, Except.bind]

theorem listRemove (hv : Views s A H) {node : Nat} (hn : node ∈ A) (hnext : H.next node ∈ A) :
    ∃ s', s.listRemove node = .ok s' ∧ Views s' A (H.listRemove node) := by
  have hv₁ := hv.put hnext (f := .prev) (hv.field_lt hn (f := .prev))
  have hv₂ := hv₁.put (f := .prev) hn (v := 0) (by decide)
  refine ⟨_, ?_, hv₂⟩
  simp only [Heap.listRemove, hv.next hn, hv.load hn, hv.store hnext, hv₁.store hn, bind,
    Except.bind]

theorem insertFree (hv : Views s A H) {list node : Nat} (hl : list ∈ A) (hn : node ∈ A)
    (hne : list ≠ node) (hnf : H.field list .nextFree ∈ A) :
    ∃ s', s.insertFree list node = .ok s' ∧ Views s' A (H.insertFree list node) := by
  have hv₁ := hv.put hn (f := .prevFree) (hv.lt list hl)
  have hv₂ := hv₁.put hn (f := .nextFree) (hv.lt _ hnf)
  have hv₃ := hv₂.put hl (f := .nextFree) (hv.lt node hn)
  have hv₄ := hv₃.put hnf (f := .prevFree) (hv.lt node hn)
  obtain ⟨s', hs', hv'⟩ := hv₄.setFree hn (v := 1)
  refine ⟨s', ?_, hv'⟩
  have hload : (((H.set node .prevFree list).set node .nextFree (H.field list .nextFree)).set
      list .nextFree node).field node .nextFree = H.field list .nextFree := by
    rw [Typed.set_field_ne_addr hne.symm, Typed.set_field_same]
  simp only [Heap.insertFree, hv.store hn, hv₁.load hl, hv₁.store hn,
    Typed.set_field_ne_addr hne, hv₂.store hl, hv₃.load hn, hload, hv₃.store hnf, hs', bind,
    Except.bind]

theorem listRemoveFree (hv : Views s A H) {node : Nat} (combined : Bool) (hn : node ∈ A)
    (hpf : H.field node .prevFree ∈ A) (hnf : H.field node .nextFree ∈ A) :
    ∃ s', s.listRemoveFree node combined = .ok s' ∧
      Views s' A (H.listRemoveFree node combined) := by
  have hv₁ := hv.put hpf (f := .nextFree) (hv.lt _ hnf)
  have hv₂ := hv₁.put hnf (f := .prevFree) (hv.lt _ hpf)
  -- `node` may be its own neighbour; its links read the same either way
  have hnf₁ : (H.set (H.field node .prevFree) .nextFree (H.field node .nextFree)).field node
      .nextFree = H.field node .nextFree := by
    rw [Typed.set_field]
    split <;> rfl
  have hpf₂ : ((H.set (H.field node .prevFree) .nextFree (H.field node .nextFree)).set
      (H.field node .nextFree) .prevFree (H.field node .prevFree)).field node .prevFree =
      H.field node .prevFree := by
    rw [Typed.set_field]
    split
    · rfl
    · rw [Typed.set_field_ne_field (by decide)]
  have hnf₂ : ((H.set (H.field node .prevFree) .nextFree (H.field node .nextFree)).set
      (H.field node .nextFree) .prevFree (H.field node .prevFree)).field node .nextFree =
      H.field node .nextFree := by
    rw [Typed.set_field_ne_field (by decide), hnf₁]
  have hv₃ := hv₂.setFreeList (H.freeListWithout node combined)
  have hv₄ := hv₃.put hn (f := .prevFree) (v := 0) (by decide)
  have hv₅ := hv₄.put hn (f := .nextFree) (v := 0) (by decide)
  obtain ⟨s', hs', hv'⟩ := hv₅.setFree hn (v := 0)
  refine ⟨s', ?_, hv'⟩
  simp only [Heap.listRemoveFree, hv.load hn, hv.store hpf, hv₁.load hn, hnf₁,
    Typed.set_field_ne_field (show Field.prevFree ≠ .nextFree by decide), hv₁.store hnf,
    hv₂.load hn, hpf₂, hnf₂, hv₂.freeList, Typed.set_freeList, bind, Except.bind, pure,
    Except.pure]
  generalize (s.put (H.field node .prevFree) .nextFree (H.field node .nextFree)).put
    (H.field node .nextFree) .prevFree (H.field node .prevFree) = s₂ at *
  unfold Typed.freeListWithout at hv₃ hv₄ hs'
  split
  · rename_i hfl
    rw [if_pos hfl] at hv₃ hv₄ hs'
    split
    · rename_i halone
      rw [if_pos halone] at hv₃ hv₄ hs'
      simp only [hv₃.store hn, hv₄.store hn, hs']
    · rename_i halone
      rw [if_neg halone] at hv₃ hv₄ hs'
      cases combined
      · simp only [Bool.false_eq_true, if_false] at hv₃ hv₄ hs' ⊢
        simp only [hv₃.store hn, hv₄.store hn, hs']
      · simp only [if_true] at hv₃ hv₄ hs' ⊢
        simp only [hv₃.store hn, hv₄.store hn, hs']
  · rename_i hfl
    rw [if_neg hfl] at hv₃ hv₄ hs'
    have hsame : { s₂ with freeList := H.freeList } = s₂ := by
      rw [← show s₂.freeList = H.freeList from hv₂.freeList]
    rw [hsame] at hv₃ hv₄ hs'
    simp only [hv₃.store hn, hv₄.store hn, hs']

theorem combine (hv : Views s A H) {block next : Nat} (hb : block ∈ A) (hn : next ∈ A)
    (hne : next ≠ block) (hnext : H.next next ∈ A) (hpf : H.field next .prevFree ∈ A)
    (hnf : H.field next .nextFree ∈ A) (hlt : H.size block + H.size next < 2 ^ 64) :
    ∃ s', s.combine block next = .ok s' ∧ Views s' A (H.combine block next) := by
  obtain ⟨s₁, hs₁, hv₁⟩ := hv.setSize hb hlt
  have hnext₁ : (H.setSize block (H.size block + H.size next)).next next = H.next next := by
    unfold Typed.next Typed.size Typed.setSize
    rw [Typed.set_field_ne_addr hne]
    rfl
  obtain ⟨s₂, hs₂, hv₂⟩ := hv₁.listRemove hn (by rwa [hnext₁])
  have hlinks : ∀ f, f ≠ .prev → f ≠ .sizeAndFree →
      ((H.setSize block (H.size block + H.size next)).listRemove next).field next f =
        H.field next f := by
    intro f hf hf'
    rw [Typed.listRemove, Typed.set_field_ne_field hf, Typed.set_field_ne_field hf,
      Typed.setSize_field_ne_field hf']
  obtain ⟨s₃, hs₃, hv₃⟩ := hv₂.listRemoveFree true hn
    (by rwa [hlinks _ (by decide) (by decide)]) (by rwa [hlinks _ (by decide) (by decide)])
  refine ⟨s₃, ?_, hv₃⟩
  simp only [Heap.combine, hv.size hb, hv.size hn, hs₁, hs₂, hs₃, bind, Except.bind]

end Views

end Chronos.Salloc
