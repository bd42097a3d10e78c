import Chronos.Lib.ByteMemory

/-!
# The shared memory allocator

`salloc.c` on a 64-bit machine: `size_t` and pointers are 8 bytes, so
`sizeof(salloc_t)` is 32 and the `next_free` field, where a payload begins,
lies 16 bytes into a header. Addresses are natural numbers; `size_t`
subtraction wraps (`sizeSub`), pointer arithmetic does not, since the C
language gives it no meaning past the address space.

A memory access outside the mapped addresses is a `Fault`. The two searches of
the file follow pointers until they come back to where they started; on a
damaged heap they need not, so they take a number of steps they may make, and
running out of steps is a fault of its own.
-/

namespace Chronos.Salloc

open Chronos.Lib

/-- Why a call into the allocator did not return. -/
inductive Fault
  /-- An access to an address that is not mapped. -/
  | segv (addr : Nat)
  /-- A search loop used up its steps. -/
  | steps
  deriving DecidableEq, Repr

/-- The fields of `salloc_t`. -/
inductive Field
  | sizeAndFree
  | prev
  | nextFree
  | prevFree
  deriving DecidableEq, Repr

def Field.offset : Field → Nat
  | .sizeAndFree => 0
  | .prev => 8
  | .nextFree => 16
  | .prevFree => 24

/-- The static variables of `salloc.c` and the memory they point into. -/
structure Heap where
  head : Nat
  totalSize : Nat
  freeList : Nat
  mem : Memory

/-- `size_t` subtraction. -/
def sizeSub (a b : Nat) : Nat := (a + 2 ^ 64 - b) % 2 ^ 64

theorem sizeSub_lt (a b : Nat) : sizeSub a b < 2 ^ 64 := Nat.mod_lt _ (Nat.two_pow_pos 64)

theorem sizeSub_eq_sub {a b : Nat} (hle : b ≤ a) (hlt : a < 2 ^ 64) : sizeSub a b = a - b := by
  unfold sizeSub
  omega

/-- `sizeof(salloc_t)` -/
def sizeofSallocT : Nat := 32

/-- `(size_t)region_start((salloc_t *)0)` -/
def regionOffset : Nat := Field.nextFree.offset

/-- `region_start(r)` -/
def regionStart (r : Nat) : Nat := r + regionOffset

/-- `_usable_size(size)` -/
def usableSizeOf (size : Nat) : Nat := sizeSub size regionOffset

/-- `SALLOC_ALLOC_SIZE` -/
def allocSize : Nat := 1 * 1024 * 1024 * 1024

/-- `SALLOC_SMALLEST_REGION` -/
def smallestRegion : Nat := usableSizeOf sizeofSallocT

theorem allocSize_eq : allocSize = 2 ^ 30 := by decide

theorem smallestRegion_eq : smallestRegion = 16 := by decide

/-- The rounding at the start of `salloc`. -/
def alignRequest (size : Nat) : Nat :=
  if size < smallestRegion then smallestRegion
  else if size % smallestRegion ≠ 0 then (size + size % smallestRegion) % 2 ^ 64
  else size

/-- `MAP_FAILED` -/
def mapFailed : Nat := 2 ^ 64 - 1

/-- An address at which `mmap` may place the first region. -/
structure Region where
  base : Nat
  pos : 0 < base
  aligned : base % 4096 = 0
  user : base + allocSize ≤ 2 ^ 47

/-- What the operating system answers during one call: where `mmap` places the
first region (`none` is `MAP_FAILED`), and whether it extends the heap in
place. -/
structure Os where
  first : Option Region
  canExtend : Bool

namespace Heap

/-- Read a header field. -/
def load (s : Heap) (r : Nat) (f : Field) : Except Fault Nat :=
  if s.mem.Mapped (r + f.offset) 8 then .ok (s.mem.peek 8 (r + f.offset))
  else .error (.segv (r + f.offset))

/-- Write a header field. -/
def store (s : Heap) (r : Nat) (f : Field) (v : Nat) : Except Fault Heap :=
  if s.mem.Mapped (r + f.offset) 8 then .ok { s with mem := s.mem.poke 8 (r + f.offset) v }
  else .error (.segv (r + f.offset))

/-! ## The header macros

The free flag is bit 0 of the size word, so `& 1` is the remainder by 2, `& ~1`
takes it off, and or-ing a flag into an even size adds it. -/

/-- `free(r)` -/
def free (s : Heap) (r : Nat) : Except Fault Nat := do
  return (← s.load r .sizeAndFree) % 2

/-- `size(r)` -/
def size (s : Heap) (r : Nat) : Except Fault Nat := do
  let w ← s.load r .sizeAndFree
  return w - w % 2

/-- `set_free(r, free)` -/
def setFree (s : Heap) (r free : Nat) : Except Fault Heap := do
  let size ← s.size r
  s.store r .sizeAndFree (size + free % 2)

/-- `set_size(r, size)` -/
def setSize (s : Heap) (r size : Nat) : Except Fault Heap := do
  let free ← s.free r
  s.store r .sizeAndFree (free + (size - size % 2))

/-- `past_end(b)` -/
def pastEnd (s : Heap) (b : Nat) : Bool := decide (s.head + s.totalSize ≤ b)

/-- `next(r)` -/
def next (s : Heap) (r : Nat) : Except Fault Nat := do
  let b := r + (← s.size r)
  return if s.pastEnd b then s.head else b

/-- `usable_size(s)` -/
def usableSize (s : Heap) (r : Nat) : Except Fault Nat := do
  return usableSizeOf (← s.size r)

/-! ## The two lists -/

/-- `insert`: put `node` after `list` in the list of all regions. -/
def insert (s : Heap) (list node : Nat) : Except Fault Heap := do
  let s ← s.store node .prev list
  s.store (← s.next node) .prev node

/-- `list_remove`: take `node` out of the list of all regions. -/
def listRemove (s : Heap) (node : Nat) : Except Fault Heap := do
  let s ← s.store (← s.next node) .prev (← s.load node .prev)
  s.store node .prev 0

/-- `insert_free`: put `node` after `list` in the list of free regions. -/
def insertFree (s : Heap) (list node : Nat) : Except Fault Heap := do
  let s ← s.store node .prevFree list
  let s ← s.store node .nextFree (← s.load list .nextFree)
  let s ← s.store list .nextFree node
  let s ← s.store (← s.load node .nextFree) .prevFree node
  s.setFree node 1

/-- `list_remove_free`: take `node` out of the list of free regions, moving
`free_list` backwards if the region was combined with the one before it and
forwards otherwise. -/
def listRemoveFree (s : Heap) (node : Nat) (combined : Bool) : Except Fault Heap := do
  let s ← s.store (← s.load node .prevFree) .nextFree (← s.load node .nextFree)
  let s ← s.store (← s.load node .nextFree) .prevFree (← s.load node .prevFree)
  let s ←
    if node = s.freeList then do
      if node = (← s.load node .prevFree) then pure { s with freeList := 0 }
      else if combined then pure { s with freeList := ← s.load node .prevFree }
      else pure { s with freeList := ← s.load node .nextFree }
    else pure s
  let s ← s.store node .prevFree 0
  let s ← s.store node .nextFree 0
  s.setFree node 0

/-- Combine the free regions `block` and `next`, adjacent in this order. -/
def combine (s : Heap) (block next : Nat) : Except Fault Heap := do
  let s ← s.setSize block ((← s.size block) + (← s.size next))
  let s ← s.listRemove next
  s.listRemoveFree next true

/-- The first half of `coalesce`: combine a free block with the next one. -/
def coalesceNext (s : Heap) (block : Nat) : Except Fault Heap := do
  let next ← s.next block
  if next ≠ s.head then
    if (← s.free next) = 1 then s.combine block next else return s
  else return s

/-- The second half of `coalesce`: combine a free block with the previous one. -/
def coalescePrev (s : Heap) (block : Nat) : Except Fault Heap := do
  if block ≠ s.head then
    let prev ← s.load block .prev
    if (← s.free prev) = 1 then s.combine prev block else return s
  else return s

/-- `coalesce` -/
def coalesce (s : Heap) (block : Nat) : Except Fault Heap := do
  let s ← s.coalesceNext block
  s.coalescePrev block

/-! ## Obtaining memory -/

/-- The heap after `mmap` has put another region behind it. -/
def extended (s : Heap) : Heap :=
  { s with
    mem := s.mem.map (s.head + s.totalSize) allocSize, totalSize := s.totalSize + allocSize }

/-- `increase_heap_size`: 0 on success, -1 on failure. -/
def increaseHeapSize (s : Heap) (os : Os) : Except Fault (Heap × Int) := do
  if !os.canExtend then return (s, -1)
  let new := s.head + s.totalSize
  let s ← s.extended.setSize new allocSize
  let s ← s.setFree new 1
  if s.freeList = 0 then do
    let s := { s with freeList := new }
    let s ← s.store new .nextFree new
    let s ← s.store new .prevFree new
    return (s, 0)
  else do
    let s ← s.insertFree (← s.load s.freeList .prevFree) new
    let s ← s.coalesce new
    return (s, 0)

/-- `init_salloc`: 0 on success, -1 on failure, when `head` is left at
`MAP_FAILED`. -/
def initSalloc (s : Heap) (os : Os) : Except Fault (Heap × Int) := do
  match os.first with
  | none => return ({ s with head := mapFailed }, -1)
  | some region => do
    let head := region.base
    let s := { s with
      head, totalSize := allocSize, freeList := head, mem := s.mem.map head allocSize }
    let s ← s.setSize head allocSize
    let s ← s.setFree head 1
    let s ← s.store head .prev head
    let s ← s.store head .nextFree head
    let s ← s.store head .prevFree head
    return (s, 0)

/-! ## Allocation -/

/-- The search loop of `_salloc` from `curr`: the first free region that is big
enough, or `none` when the search is back at `free_list`. -/
def search (s : Heap) (size : Nat) : Nat → Nat → Except Fault (Option Nat)
  | 0, _ => .error .steps
  | steps + 1, curr => do
    if size ≤ (← s.usableSize curr) then return some curr
    let curr ← s.load curr .nextFree
    if curr = s.freeList then return none
    s.search size steps curr

/-- The size left over when `size` bytes are taken from the region `curr`. -/
def splitSize (s : Heap) (curr size : Nat) : Except Fault Nat := do
  return sizeSub (← s.usableSize curr) size

/-- Hand out the whole of the free region `curr`. -/
def takeWhole (s : Heap) (curr : Nat) : Except Fault (Heap × Nat) := do
  let s ← s.listRemoveFree curr false
  return (s, regionStart curr)

/-- Hand out the first `size` bytes of the free region `curr` and make the rest
a free region of its own. -/
def takeSplit (s : Heap) (curr size splitSize : Nat) : Except Fault (Heap × Nat) := do
  let bottomHalf := regionStart curr + size
  let s ← s.setSize bottomHalf splitSize
  let s ← s.setSize curr (sizeSub (← s.size curr) splitSize)
  let s ← s.setFree bottomHalf 1
  let s ← s.setFree curr 0
  let s ← s.insert curr bottomHalf
  let s ← s.insertFree curr bottomHalf
  let s ← s.listRemoveFree curr false
  return (s, regionStart curr)

/-- The last part of `_salloc`: take `size` bytes from the free region `curr`. -/
def take (s : Heap) (curr size : Nat) : Except Fault (Heap × Nat) := do
  let splitSize ← s.splitSize curr size
  if usableSizeOf splitSize < smallestRegion then s.takeWhole curr
  else s.takeSplit curr size splitSize

/-- The start of `_salloc`: initialise the heap if there is none. -/
def ready (s : Heap) (os : Os) : Except Fault (Heap × Int) :=
  if s.head = 0 then s.initSalloc os else .ok (s, 0)

/-- The first free region that is big enough, if there is a free region at all. -/
def firstFit (s : Heap) (steps size : Nat) : Except Fault (Option Nat) :=
  if s.freeList = 0 then .ok none else s.search size steps s.freeList

/-- `_salloc` up to its two growth paths, which are `grow`. -/
def attempt (s : Heap) (os : Os) (steps size : Nat)
    (grow : Heap → Except Fault (Heap × Nat)) : Except Fault (Heap × Nat) := do
  let (s, failed) ← s.ready os
  if failed ≠ 0 then return (s, 0)
  match ← s.firstFit steps size with
  | none => grow s
  | some curr => s.take curr size

/-- `_salloc` -/
def _salloc (os : Os) (steps size : Nat) : (retry : Nat) → Heap → Except Fault (Heap × Nat)
  | 0, s => s.attempt os steps size fun s => return (s, 0)
  | retry + 1, s => s.attempt os steps size fun s => do
    let (s, failed) ← s.increaseHeapSize os
    if failed ≠ 0 then return (s, 0) else _salloc os steps size retry s

/-- `salloc`: the payload address, 0 on failure. -/
def salloc (s : Heap) (os : Os) (steps size : Nat) : Except Fault (Heap × Nat) :=
  _salloc os steps (alignRequest size) 1 s

/-! ## Release -/

/-- The search loop of `sfree` from `curr`: the nearest free region before
`free`, or `free` itself when there is none. -/
def searchBack (s : Heap) (free : Nat) : Nat → Nat → Except Fault Nat
  | 0, _ => .error .steps
  | steps + 1, curr => do
    if (← s.free curr) = 1 then return curr
    let curr ← s.load curr .prev
    if curr = free then return curr
    s.searchBack free steps curr

/-- `sfree` -/
def sfree (s : Heap) (steps ptr : Nat) : Except Fault Heap := do
  let free := ptr - regionOffset
  let curr ← s.searchBack free steps (← s.load free .prev)
  if curr = free then do
    let s := { s with freeList := free }
    let s ← s.store free .nextFree free
    let s ← s.store free .prevFree free
    s.setFree curr 1
  else do
    let s ← s.insertFree curr free
    s.coalesce free

end Heap

end Chronos.Salloc
