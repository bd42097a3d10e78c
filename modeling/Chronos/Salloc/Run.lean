import Mathlib.Logic.Relation
import Chronos.Salloc.Allocate
import Chronos.Salloc.Payload

/-!
# Runs of the allocator

A client calls `salloc` and `sfree` and writes into the bytes it has asked for.
`Config` is the allocator together with the client's live allocations, and
`exec` one action of the client. The heap stays well formed over every run in
which no call grows the heap and no call takes a free block that is too tight:
one whose payload exceeds the rounded request by less than
`SALLOC_SMALLEST_REGION`.
-/

namespace Chronos.Salloc

open Chronos.Lib

/-! ## Rounding -/

section Align

variable {n : Nat}

theorem smallestRegion_le_alignRequest (hwrap : n + n % smallestRegion < 2 ^ 64) :
    smallestRegion ≤ alignRequest n := by
  unfold alignRequest
  split
  · exact Nat.le_refl _
  · split
    · rw [Nat.mod_eq_of_lt hwrap]
      omega
    · omega

theorem le_alignRequest (hwrap : n + n % smallestRegion < 2 ^ 64) : n ≤ alignRequest n := by
  unfold alignRequest
  split
  · omega
  · split
    · rw [Nat.mod_eq_of_lt hwrap]
      omega
    · exact Nat.le_refl _

theorem alignRequest_even (hwrap : n + n % smallestRegion < 2 ^ 64) : alignRequest n % 2 = 0 := by
  unfold alignRequest
  rw [smallestRegion_eq] at hwrap ⊢
  split
  · rfl
  · split
    · rw [Nat.mod_eq_of_lt hwrap]
      omega
    · omega

end Align

/-! ## The two conditions on a call -/

namespace Heap

/-- The call finds no free region that is big enough. -/
def mustGrow (s : Heap) (os : Os) (steps n : Nat) : Bool :=
  match s.ready os with
  | .ok (s, failed) =>
    failed == 0 && match s.firstFit steps (alignRequest n) with
      | .ok none => true
      | _ => false
  | .error _ => false

/-- The free region the call takes exceeds the rounded request by less than
`SALLOC_SMALLEST_REGION`. -/
def tightFit (s : Heap) (os : Os) (steps n : Nat) : Bool :=
  match s.ready os with
  | .ok (s, failed) =>
    failed == 0 && match s.firstFit steps (alignRequest n) with
      | .ok (some curr) =>
        match s.splitSize curr (alignRequest n) with
        | .ok splitSize => decide (splitSize < smallestRegion)
        | .error _ => false
      | _ => false
  | .error _ => false

variable {s s₀ : Heap} {os : Os} {steps n curr : Nat}

theorem salloc_of_fit (hready : s.ready os = .ok (s₀, 0))
    (hfit : s₀.firstFit steps (alignRequest n) = .ok (some curr)) :
    s.salloc os steps n = s₀.take curr (alignRequest n) := by
  unfold salloc _salloc attempt
  rw [hready, bind_ok]
  simp only [ne_eq, not_true_eq_false, if_false, hfit, bind_ok]

theorem salloc_of_failed (hready : s.ready os = .ok (s₀, -1)) :
    s.salloc os steps n = .ok (s₀, 0) := by
  unfold salloc _salloc attempt
  rw [hready, bind_ok]
  rfl

theorem mustGrow_of_none (hready : s.ready os = .ok (s₀, 0))
    (hfit : s₀.firstFit steps (alignRequest n) = .ok none) : s.mustGrow os steps n = true := by
  unfold mustGrow
  rw [hready]
  simp only [hfit, beq_self_eq_true, Bool.and_self]

theorem tightFit_of_fit (hready : s.ready os = .ok (s₀, 0))
    (hfit : s₀.firstFit steps (alignRequest n) = .ok (some curr)) {splitSize : Nat}
    (hsplit : s₀.splitSize curr (alignRequest n) = .ok splitSize) :
    s.tightFit os steps n = decide (splitSize < smallestRegion) := by
  unfold tightFit
  rw [hready]
  simp only [hfit, hsplit, beq_self_eq_true, Bool.true_and]

end Heap

/-! ## The client -/

/-- A pointer got from `salloc` and the number of bytes asked for. -/
structure Allocation where
  ptr : Nat
  bytes : Nat
  deriving DecidableEq, Repr

/-- The allocator and the client's live allocations. -/
structure Config where
  heap : Heap
  live : List Allocation

/-- What a client does. -/
inductive Action
  | salloc (os : Os) (n : Nat)
  | sfree (ptr : Nat)
  | write (addr : Nat) (byte : Fin 256)

namespace Config

/-- The allocator before the first call, in a memory `mem`. -/
def start (mem : Memory) : Config where
  heap := { head := 0, totalSize := 0, freeList := 0, mem }
  live := []

/-- One action of the client, the searches making at most `steps` steps. -/
def exec (steps : Nat) (c : Config) : Action → Except Fault Config
  | .salloc os n => do
    let (heap, ptr) ← c.heap.salloc os steps n
    return { heap, live := if ptr = 0 then c.live else ⟨ptr, n⟩ :: c.live }
  | .sfree ptr => do
    let heap ← c.heap.sfree steps ptr
    return { heap, live := c.live.filter (·.ptr ≠ ptr) }
  | .write addr byte =>
    if c.heap.mem.mapped addr then
      .ok { c with heap := { c.heap with mem := c.heap.mem.setByte addr byte } }
    else .error (.segv addr)

theorem exec_salloc {steps : Nat} {c : Config} {os : Os} {n ptr : Nat} {s : Heap}
    (h : c.heap.salloc os steps n = .ok (s, ptr)) : c.exec steps (.salloc os n) =
      .ok { heap := s, live := if ptr = 0 then c.live else ⟨ptr, n⟩ :: c.live } := by
  simp only [exec, h, bind_ok]
  rfl

theorem exec_sfree {steps : Nat} {c : Config} {ptr : Nat} {s : Heap}
    (h : c.heap.sfree steps ptr = .ok s) : c.exec steps (.sfree ptr) =
      .ok { heap := s, live := c.live.filter (·.ptr ≠ ptr) } := by
  simp only [exec, h, bind_ok]
  rfl

/-- The client keeps to its side of the contract: requests whose rounding does
not wrap and that need no growth, releases of live allocations, writes inside
them. -/
def Allowed (steps : Nat) (c : Config) : Action → Prop
  | .salloc os n => n + n % smallestRegion < 2 ^ 64 ∧ c.heap.mustGrow os steps n = false
  | .sfree ptr => ∃ a ∈ c.live, a.ptr = ptr
  | .write addr _ => ∃ a ∈ c.live, a.ptr ≤ addr ∧ addr < a.ptr + a.bytes

/-- The action is not a call that takes too tight a free block. -/
def Slack (steps : Nat) (c : Config) : Action → Prop
  | .salloc os n => c.heap.tightFit os steps n = false
  | _ => True

/-- An allowed action that returns. -/
def AllowedStep (steps : Nat) (c c' : Config) : Prop :=
  ∃ a, c.Allowed steps a ∧ c.exec steps a = .ok c'

/-- An allowed action that returns and takes no tight block. -/
def SlackStep (steps : Nat) (c c' : Config) : Prop :=
  ∃ a, c.Allowed steps a ∧ c.Slack steps a ∧ c.exec steps a = .ok c'

end Config

/-- The bytes of a block's header that are in use. -/
def Block.headerSize (b : Block) : Nat := if b.free then sizeofSallocT else regionOffset

/-- **The heap invariant.** The heap is well formed, and the bytes of the live
allocations overlap neither each other nor a header. -/
structure Config.Sound (c : Config) (bs : List Block) : Prop where
  wellFormed : WellFormed c.heap bs
  disjoint : c.live.Pairwise fun a b => a.ptr + a.bytes ≤ b.ptr ∨ b.ptr + b.bytes ≤ a.ptr
  headers : ∀ a ∈ c.live, ∀ b ∈ bs,
    a.ptr + a.bytes ≤ b.addr ∨ b.addr + b.headerSize ≤ a.ptr

/-- What carries the induction: the live allocations are the payloads of the
blocks in use. -/
structure Config.Held (c : Config) (bs : List Block) : Prop where
  wellFormed : WellFormed c.heap bs
  total : c.heap.totalSize ≤ allocSize
  live : (c.live.map Allocation.ptr).Perm ((used bs).map fun b => regionStart b.addr)
  room : ∀ a ∈ c.live, ∀ b ∈ used bs, regionStart b.addr = a.ptr → a.bytes + regionOffset ≤ b.size

namespace Config.Held

variable {c : Config} {bs : List Block} {a : Allocation}

/-- There are as many blocks in use as live allocations. -/
theorem length_used (h : c.Held bs) : (used bs).length = c.live.length := by
  have hlength := h.live.length_eq
  rw [List.length_map, List.length_map] at hlength
  exact hlength.symm

/-- A live allocation is the payload of a block in use that has room for it. -/
theorem block (h : c.Held bs) (ha : a ∈ c.live) :
    ∃ b ∈ used bs, regionStart b.addr = a.ptr ∧ a.bytes + regionOffset ≤ b.size := by
  have hmem := h.live.subset (List.mem_map_of_mem ha)
  obtain ⟨b, hb, hptr⟩ := List.mem_map.mp hmem
  exact ⟨b, hb, hptr, h.room a ha b hb hptr⟩

theorem nodup (h : c.Held bs) : (c.live.map Allocation.ptr).Nodup := by
  rw [h.live.nodup_iff]
  have hsub : (addrs (used bs)).Nodup :=
    (List.filter_sublist.map Block.addr).nodup h.wellFormed.blocks.nodup
  rw [addrs, List.Nodup, List.pairwise_map] at hsub
  rw [List.Nodup, List.pairwise_map]
  refine hsub.imp fun hne he => hne ?_
  simpa [regionStart] using he

theorem length_le (h : c.Held bs) : bs.length ≤ allocSize := by
  have hlen := h.wellFormed.blocks.tiles.length_le fun b _ => b.size_pos
  have htotal : c.heap.typed.totalSize ≤ allocSize := h.total
  omega

theorem sound (h : c.Held bs) : c.Sound bs where
  wellFormed := h.wellFormed
  disjoint := by
    have hnd := h.nodup
    rw [List.Nodup, List.pairwise_map] at hnd
    refine hnd.imp_of_mem fun {a a'} ha ha' hne => ?_
    obtain ⟨b, hb, hptr, hroom⟩ := h.block ha
    obtain ⟨b', hb', hptr', hroom'⟩ := h.block ha'
    have hbb' : b ≠ b' := by
      rintro rfl
      exact hne (hptr.symm.trans hptr')
    have hdis := h.wellFormed.blocks.tiles.disjoint (mem_used.mp hb).1 (mem_used.mp hb').1 hbb'
    unfold regionStart at hptr hptr'
    omega
  headers a ha b' hb' := by
    obtain ⟨b, hb, hptr, hroom⟩ := h.block ha
    unfold regionStart at hptr
    by_cases hbb' : b' = b
    · subst hbb'
      right
      unfold Block.headerSize
      rw [(mem_used.mp hb).2, if_neg (by decide)]
      omega
    · have hdis := h.wellFormed.blocks.tiles.disjoint hb' (mem_used.mp hb).1 hbb'
      have hle : b'.headerSize ≤ b'.size := by
        have := b'.fits
        have : regionOffset ≤ sizeofSallocT := by decide
        unfold Block.headerSize
        split <;> omega
      omega

end Config.Held

/-! ## One action -/

namespace Config.Held

variable {c c' : Config} {s₀ : Heap} {bs : List Block} {a : Allocation} {steps n : Nat} {os : Os}

theorem bounded (h : c.Held bs) (hsteps : allocSize ≤ steps) : bs.length ≤ steps :=
  Nat.le_trans h.length_le hsteps

/-- Handing out a free block, or the first part of it. -/
theorem hand_out {p q r : List Block} {b b' : Block} {s' : Heap}
    (h : Held ⟨s₀, c.live⟩ (p ++ b :: q)) (hbf : b.free = true) (hwf : WellFormed s' (p ++ b' :: r))
    (hr : SameRegion s₀ s') (haddr : b'.addr = b.addr) (hused : b'.free = false)
    (hroom : n + regionOffset ≤ b'.size) (hrest : used r = used q) :
    Held ⟨s', ⟨regionStart b.addr, n⟩ :: c.live⟩ (p ++ b' :: r) := by
  have hold : used (p ++ b :: q) = used p ++ used q := by
    rw [used_append, used_cons_free hbf]
  have hnew : used (p ++ b' :: r) = used p ++ b' :: used q := by
    rw [used_append, used_cons_used hused, hrest]
  refine ⟨hwf, ?_, ?_, ?_⟩
  · rw [hr.totalSize]
    exact h.total
  · have hlive := h.live
    rw [hold, List.map_append] at hlive
    rw [hnew, List.map_append, List.map_cons, List.map_cons, haddr]
    exact (List.Perm.cons _ hlive).trans List.perm_middle.symm
  · intro a ha d hd hda
    rw [hnew] at hd
    rcases List.mem_cons.mp ha with rfl | ha
    · -- the new allocation
      have hdb : d = b' := by
        have hd' : d ∈ p ++ b' :: r := by
          have : d ∈ used (p ++ b' :: r) := by rw [hnew]; exact hd
          exact (mem_used.mp this).1
        have hda' : regionStart d.addr = regionStart b.addr := hda
        refine hwf.blocks.tiles.eq_of_start hd' (by simp) (fun e _ => e.size_pos) ?_
        unfold regionStart at hda'
        omega
      rw [hdb]
      exact hroom
    · have hne : d ≠ b' := by
        rintro rfl
        obtain ⟨e, he, hptr', -⟩ := h.block ha
        have : e = b := by
          refine h.wellFormed.blocks.tiles.eq_of_start (mem_used.mp he).1 (by simp)
            (fun e _ => e.size_pos) ?_
          unfold regionStart at hptr' hda
          omega
        rw [this] at he
        rw [(mem_used.mp he).2] at hbf
        cases hbf
      refine h.room a ha d ?_ hda
      rw [hold, List.mem_append]
      rcases List.mem_append.mp hd with hd | hd
      · exact Or.inl hd
      · exact Or.inr ((List.mem_cons.mp hd).resolve_left hne)

theorem salloc_ready (h : Held ⟨s₀, c.live⟩ bs) (hsteps : allocSize ≤ steps)
    (hready : c.heap.ready os = .ok (s₀, 0)) (hallowed : c.Allowed steps (.salloc os n))
    (hslack : c.Slack steps (.salloc os n)) :
    ∃ c' bs', c.exec steps (.salloc os n) = .ok c' ∧ c'.Held bs' := by
  obtain ⟨hwrap, hgrow⟩ := hallowed
  have hslack : c.heap.tightFit os steps n = false := hslack
  rcases h.wellFormed.firstFit (h.bounded hsteps) (alignRequest n) with
    ⟨b, hb, hbf, hfit, hfirst⟩ | ⟨hfirst, -⟩
  · obtain ⟨p, q, rfl⟩ := List.append_of_mem hb
    rw [Heap.tightFit_of_fit hready hfirst (h.wellFormed.splitSize hb), decide_eq_false_iff_not,
      Nat.not_lt] at hslack
    obtain ⟨s', b', r, htake, hr, hwf, haddr, hused, hroom, -, hrest, -⟩ :=
      h.wellFormed.take_slack hbf (alignRequest_even hwrap) (smallestRegion_le_alignRequest hwrap)
        hfit hslack
    have hptr : regionStart b.addr ≠ 0 := by
      have := h.wellFormed.pos_addr hb
      unfold regionStart
      omega
    refine ⟨⟨s', ⟨regionStart b.addr, n⟩ :: c.live⟩, p ++ b' :: r, ?_, ?_⟩
    · rw [exec_salloc ((Heap.salloc_of_fit hready hfirst).trans htake), if_neg hptr]
    · exact h.hand_out hbf hwf hr haddr hused
        (Nat.le_trans (Nat.add_le_add_right (le_alignRequest hwrap) _) hroom) hrest
  · rw [Heap.mustGrow_of_none hready hfirst] at hgrow
    cases hgrow

theorem salloc (h : c.Held bs) (hsteps : allocSize ≤ steps)
    (hallowed : c.Allowed steps (.salloc os n)) (hslack : c.Slack steps (.salloc os n)) :
    ∃ c' bs', c.exec steps (.salloc os n) = .ok c' ∧ c'.Held bs' := by
  have hhead : c.heap.head ≠ 0 := Nat.pos_iff_ne_zero.mp h.wellFormed.pos
  have hready : c.heap.ready os = .ok (c.heap, 0) := if_neg hhead
  exact salloc_ready h hsteps hready hallowed hslack

/-- Releasing a live allocation. -/
theorem release (h : c.Held bs) (hsteps : allocSize ≤ steps) (ha : a ∈ c.live) :
    ∃ s' bs', c.heap.sfree steps a.ptr = .ok s' ∧ SameRegion c.heap s' ∧
      Held ⟨s', c.live.filter (·.ptr ≠ a.ptr)⟩ bs' := by
  obtain ⟨b, hb, hptr, -⟩ := h.block ha
  obtain ⟨hbm, hused⟩ := mem_used.mp hb
  obtain ⟨p, q, rfl⟩ := List.append_of_mem hbm
  obtain ⟨s', hs', hr, hwf⟩ := h.wellFormed.sfree hused (h.bounded hsteps)
  have hold : used (p ++ b :: q) = used p ++ b :: used q := by
    rw [used_append, used_cons_used hused]
  have hother : ∀ d ∈ used p ++ used q, regionStart d.addr ≠ a.ptr := by
    intro d hd he
    have hd' : d ∈ p ∨ d ∈ q := by
      rcases List.mem_append.mp hd with hd | hd
      · exact Or.inl (mem_used.mp hd).1
      · exact Or.inr (mem_used.mp hd).1
    apply h.wellFormed.blocks.addr_ne hd'
    unfold regionStart at he hptr
    omega
  refine ⟨s', Salloc.release p b q, hptr ▸ hs', hr, hwf, ?_, ?_, ?_⟩
  · rw [hr.totalSize]
    exact h.total
  · have hlive := h.live.filter (· ≠ a.ptr)
    rw [hold, List.filter_map] at hlive
    rw [release_used]
    have hrest : (((used p ++ b :: used q).map fun b => regionStart b.addr).filter (· ≠ a.ptr)) =
        (used p ++ used q).map fun b => regionStart b.addr := by
      rw [List.filter_map, List.filter_append, List.filter_cons_of_neg (by simp [hptr]),
        ← List.filter_append, List.filter_eq_self.mpr]
      intro d hd
      simpa using hother d hd
    rw [hrest] at hlive
    exact hlive
  · intro x hx d hd hda
    rw [release_used] at hd
    refine h.room x (List.mem_of_mem_filter hx) d ?_ hda
    rw [hold, List.mem_append]
    exact (List.mem_append.mp hd).imp id (List.mem_cons_of_mem _)

theorem sfree (h : c.Held bs) (hsteps : allocSize ≤ steps) {ptr : Nat}
    (hallowed : c.Allowed steps (.sfree ptr)) :
    ∃ c' bs', c.exec steps (.sfree ptr) = .ok c' ∧ c'.Held bs' := by
  obtain ⟨a, ha, rfl⟩ := hallowed
  obtain ⟨s', bs', hs', -, h'⟩ := h.release hsteps ha
  exact ⟨_, bs', exec_sfree hs', h'⟩

/-- A byte of a live allocation lies in the payload of its block. -/
theorem inPayload (h : c.Held bs) (ha : a ∈ c.live) {addr : Nat} (hlo : a.ptr ≤ addr)
    (hhi : addr < a.ptr + a.bytes) : InPayload bs addr := by
  obtain ⟨b, hb, hptr, hroom⟩ := h.block ha
  refine ⟨b, hb, hptr ▸ hlo, ?_⟩
  unfold regionStart at hptr
  omega

theorem setByte (h : c.Held bs) {addr : Nat} (hx : InPayload bs addr) (byte : Fin 256) :
    Held { c with heap := { c.heap with mem := c.heap.mem.setByte addr byte } } bs :=
  ⟨h.wellFormed.setByte hx byte, h.total, h.live, h.room⟩

/-- A write inside the payload of a block in use touches no header field of
the invariant. -/
theorem write (h : c.Held bs) {addr : Nat} {byte : Fin 256}
    (hallowed : c.Allowed steps (.write addr byte)) :
    ∃ c', c.exec steps (.write addr byte) = .ok c' ∧ c'.Held bs := by
  obtain ⟨a, ha, hlo, hhi⟩ := hallowed
  have hx := h.inPayload ha hlo hhi
  exact ⟨_, if_pos (h.wellFormed.mapped_payload hx), h.setByte hx byte⟩

end Config.Held

/-- A heap whose first `mmap` failed has no blocks. -/
theorem wellFormed_mapFailed {mem : Memory} :
    WellFormed { head := mapFailed, totalSize := 0, freeList := 0, mem } [] where
  pos := Nat.zero_lt_succ _
  space := (by decide : mapFailed + 0 < 2 ^ 64)
  mapped i hi := absurd hi (Nat.not_lt_zero i)
  blocks := ⟨rfl, nofun, Cycle.Chain.nil _⟩
  frees := ⟨Cycle.Chain.nil _, List.nodup_nil, nofun, Or.inl ⟨rfl, rfl⟩⟩
  noAdjacent := List.IsChain.nil

/-- The first call finds no heap and makes one, or fails to. -/
theorem Config.start_salloc {mem : Memory} {os : Os} {steps n : Nat} (hsteps : allocSize ≤ steps)
    (hallowed : (Config.start mem).Allowed steps (.salloc os n))
    (hslack : (Config.start mem).Slack steps (.salloc os n)) :
    ∃ c' bs', (Config.start mem).exec steps (.salloc os n) = .ok c' ∧ c'.Held bs' := by
  obtain ⟨first, canExtend⟩ := os
  cases first with
  | none =>
    have hready : (Config.start mem).heap.ready ⟨none, canExtend⟩ =
        .ok ({ (Config.start mem).heap with head := mapFailed }, -1) := rfl
    exact ⟨_, [], Config.exec_salloc (Heap.salloc_of_failed hready), wellFormed_mapFailed,
      Nat.zero_le _, List.Perm.nil, nofun⟩
  | some region =>
    obtain ⟨s₀, hs₀, -, htotal, hwf⟩ := Heap.initSalloc_spec (Config.start mem).heap region canExtend
    have hheld : Config.Held ⟨s₀, (Config.start mem).live⟩ [freshBlock region] :=
      ⟨hwf, Nat.le_of_eq htotal, List.Perm.nil, nofun⟩
    exact hheld.salloc_ready hsteps hs₀ hallowed hslack

/-! ## Runs -/

/-- The client's configurations: the allocator not yet called, or a sound heap. -/
inductive Config.Started (c : Config) : Prop
  | start (mem : Memory) (h : c = Config.start mem)
  | held (bs : List Block) (h : c.Held bs)

section Run

variable {steps : Nat} {c c' : Config} {a : Action} {mem : Memory}

/-- **Step.** Every allowed action that takes no tight block returns, and the
invariant holds after it. -/
theorem Config.Started.exec (hsteps : allocSize ≤ steps) (h : c.Started)
    (hallowed : c.Allowed steps a) (hslack : c.Slack steps a) :
    ∃ c' bs, c.exec steps a = .ok c' ∧ c'.Held bs := by
  cases h with
  | start mem hc =>
    subst hc
    cases a with
    | salloc os n => exact Config.start_salloc hsteps hallowed hslack
    | sfree ptr =>
      obtain ⟨x, hx, -⟩ := hallowed
      cases hx
    | write addr byte =>
      obtain ⟨x, hx, -⟩ := hallowed
      cases hx
  | held bs h =>
    cases a with
    | salloc os n => exact h.salloc hsteps hallowed hslack
    | sfree ptr => exact h.sfree hsteps hallowed
    | write addr byte =>
      obtain ⟨c', hc', h'⟩ := h.write hallowed
      exact ⟨c', bs, hc', h'⟩

theorem Config.Started.run (hsteps : allocSize ≤ steps)
    (hrun : Relation.ReflTransGen (Config.SlackStep steps) (Config.start mem) c) : c.Started := by
  induction hrun with
  | refl => exact .start mem rfl
  | tail _ hstep ih =>
    obtain ⟨a, hallowed, hslack, hexec⟩ := hstep
    obtain ⟨c', bs, hc', h'⟩ := ih.exec hsteps hallowed hslack
    rw [hc'] at hexec
    cases hexec
    exact .held bs h'

/-- **The heap invariant over every run.** -/
theorem heap_invariant_of_slack (hsteps : allocSize ≤ steps)
    (hrun : Relation.ReflTransGen (Config.SlackStep steps) (Config.start mem) c)
    (hallowed : c.Allowed steps a) (hslack : c.Slack steps a) :
    ∃ c' bs, c.exec steps a = .ok c' ∧ c'.Sound bs := by
  obtain ⟨c', bs, hc', h'⟩ := (Config.Started.run hsteps hrun).exec hsteps hallowed hslack
  exact ⟨c', bs, hc', h'.sound⟩

end Run

/-! ## A run that damages the heap -/

/-- The configuration after a list of actions, up to the first that faults. -/
def Config.after (steps : Nat) (c : Config) : List Action → Config
  | [] => c
  | a :: as =>
    match c.exec steps a with
    | .ok c' => c'.after steps as
    | .error _ => c

/-- The action returns. -/
def Config.returns (steps : Nat) (c : Config) (a : Action) : Bool :=
  match c.exec steps a with
  | .ok _ => true
  | .error _ => false

theorem Config.exec_after {steps : Nat} {c : Config} {a : Action} (h : c.returns steps a = true) :
    c.exec steps a = .ok (c.after steps [a]) := by
  unfold Config.returns at h
  unfold Config.after
  split at h
  · rename_i c' hc'
    rw [hc']
    rfl
  · cases h

theorem Config.after_cons {steps : Nat} {c : Config} {a : Action} {as : List Action}
    (h : c.returns steps a = true) :
    c.after steps (a :: as) = (c.after steps [a]).after steps as := by
  rw [Config.after, Config.exec_after h]

theorem Config.allowedStep_after (steps : Nat) (c : Config) (a : Action)
    (hallowed : c.Allowed steps a) (h : c.returns steps a = true) :
    c.AllowedStep steps (c.after steps [a]) :=
  ⟨a, hallowed, exec_after h⟩

theorem Config.slackStep_after (steps : Nat) (c : Config) (a : Action)
    (hallowed : c.Allowed steps a) (hslack : c.Slack steps a) (h : c.returns steps a = true) :
    c.SlackStep steps (c.after steps [a]) :=
  ⟨a, hallowed, hslack, exec_after h⟩

/-- The system places the first region on the second page. -/
def secondPage : Os := ⟨some ⟨4096, by decide, by decide, by decide⟩, false⟩

/-- A client with three live allocations, next to each other. -/
def Config.threeInUse : Config :=
  (Config.start .empty).after allocSize
    [.salloc secondPage 16, .salloc secondPage 32, .salloc secondPage 16]

theorem Config.threeInUse_run : Relation.ReflTransGen (Config.SlackStep allocSize)
    (Config.start .empty) Config.threeInUse := by
  have h₁ := Config.slackStep_after allocSize (.start .empty) (.salloc secondPage 16)
    ⟨by decide, by decide +kernel⟩ (by decide +kernel : Heap.tightFit _ _ _ _ = false)
    (by decide +kernel)
  have h₂ := Config.slackStep_after allocSize
    ((Config.start .empty).after allocSize [.salloc secondPage 16]) (.salloc secondPage 32)
    ⟨by decide, by decide +kernel⟩ (by decide +kernel : Heap.tightFit _ _ _ _ = false)
    (by decide +kernel)
  have h₃ := Config.slackStep_after allocSize
    (((Config.start .empty).after allocSize [.salloc secondPage 16]).after allocSize
      [.salloc secondPage 32]) (.salloc secondPage 16)
    ⟨by decide, by decide +kernel⟩ (by decide +kernel : Heap.tightFit _ _ _ _ = false)
    (by decide +kernel)
  rw [Config.threeInUse, Config.after_cons (by decide +kernel),
    Config.after_cons (by decide +kernel)]
  exact ((Relation.ReflTransGen.single h₁).tail h₂).tail h₃

theorem Config.threeInUse_live :
    Config.threeInUse.live = [⟨4192, 16⟩, ⟨4144, 32⟩, ⟨4112, 16⟩] := by
  decide +kernel

theorem Config.threeInUse_held : ∃ bs, Config.threeInUse.Held bs := by
  cases Config.Started.run le_rfl Config.threeInUse_run with
  | start mem h =>
    have hlive := Config.threeInUse_live
    rw [h] at hlive
    cases hlive
  | held bs h => exact ⟨bs, h⟩

/-- Three requests, the release of the second one, and then that of the first, which is merged
with it. -/
theorem heap_invariant_after_release :
    ∃ c' bs, (Config.threeInUse.after allocSize [.sfree 4144]).exec allocSize (.sfree 4112) =
      .ok c' ∧ c'.Sound bs := by
  have hstep := Config.slackStep_after allocSize .threeInUse (.sfree 4144)
    ⟨⟨4144, 32⟩, by rw [Config.threeInUse_live]; decide, rfl⟩ trivial (by decide +kernel)
  exact heap_invariant_of_slack (Nat.le_refl _) (Config.threeInUse_run.tail hstep)
    ⟨⟨4112, 16⟩, by decide +kernel, rfl⟩ trivial

/-- A heap whose second header holds a size of 0 is not sound. -/
theorem Config.not_sound_of_header {c : Config} {bs : List Block} (hhead : c.heap.head = 4096)
    (htotal : c.heap.totalSize = allocSize)
    (hfirst : c.heap.typed.field 4096 .sizeAndFree = 32)
    (hsecond : c.heap.typed.field 4128 .sizeAndFree = 1) : ¬c.Sound bs := by
  intro h
  have htiles := h.wellFormed.blocks.tiles
  have hhead' : c.heap.typed.head = 4096 := hhead
  have htotal' : c.heap.typed.totalSize = allocSize := htotal
  have hsize := allocSize_eq
  rw [hhead', htotal'] at htiles
  cases bs with
  | nil =>
    rw [Tiles.nil_iff] at htiles
    omega
  | cons b bs =>
    rw [Tiles.cons_iff] at htiles
    have hb : b.size = 32 := by
      rw [← h.wellFormed.blocks.size_eq (b := b) (by simp), Typed.size, htiles.1, hfirst]
    cases bs with
    | nil =>
      rw [hb, Tiles.nil_iff] at htiles
      omega
    | cons d bs =>
      rw [hb, Tiles.cons_iff] at htiles
      have hd := h.wellFormed.blocks.size_eq (b := d) (by simp)
      rw [Typed.size, htiles.2.1, hsecond] at hd
      have := d.size_pos
      omega

/-- **The invariant fails without slack.** Two requests use up the region; the
first is released and asked for again. The released block fits exactly, the
leftover of 0 bytes wraps in `_usable_size`, and the split writes a header of
size 0 over the second allocation's. -/
theorem heap_invariant_fails :
    ∃ c, Relation.ReflTransGen (Config.AllowedStep allocSize) (Config.start .empty) c ∧
      c.Allowed allocSize (.salloc secondPage 16) ∧
      ∃ c', c.exec allocSize (.salloc secondPage 16) = .ok c' ∧ ∀ bs, ¬c'.Sound bs := by
  have h₁ := Config.allowedStep_after allocSize (.start .empty) (.salloc secondPage 16)
    ⟨by decide, by decide +kernel⟩ (by decide +kernel)
  have h₂ := Config.allowedStep_after allocSize
    ((Config.start .empty).after allocSize [.salloc secondPage 16])
    (.salloc secondPage (2 ^ 30 - 64)) ⟨by decide, by decide +kernel⟩ (by decide +kernel)
  have h₃ := Config.allowedStep_after allocSize
    (((Config.start .empty).after allocSize [.salloc secondPage 16]).after allocSize
      [.salloc secondPage (2 ^ 30 - 64)])
    (.sfree 4112) ⟨⟨4112, 16⟩, by decide +kernel, rfl⟩ (by decide +kernel)
  refine ⟨_, ((Relation.ReflTransGen.single h₁).tail h₂).tail h₃,
    ⟨by decide, by decide +kernel⟩, _, Config.exec_after (by decide +kernel), fun bs => ?_⟩
  exact Config.not_sound_of_header (by decide +kernel) (by decide +kernel) (by decide +kernel)
    (by decide +kernel)

end Chronos.Salloc
