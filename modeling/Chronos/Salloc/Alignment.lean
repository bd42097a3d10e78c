import Mathlib.Order.Bounds.Defs
import Chronos.Salloc.Carve
import Chronos.Salloc.Damage

/-!
# Multiples of `SALLOC_SMALLEST_REGION`

`salloc` adds the remainder of a request where it would have to add what the remainder
lacks. The two are the same for multiples of `SALLOC_SMALLEST_REGION` and for requests
halfway between them. As long as a client makes no others, all sizes and all pointers are
multiples, over every run on heaps that stay well formed.
-/

namespace Chronos.Salloc

open Chronos.Lib

/-! ## The rounding -/

section Rounding

variable {n m : Nat}

/-- What the comment in `salloc` promises of the size `m` it asks for. -/
def LeastMultiple (n m : Nat) : Prop :=
  IsLeast {k | smallestRegion ∣ k ∧ max n smallestRegion ≤ k} m

/-- The requests that are rounded up as promised. -/
def RoundsUp (n : Nat) : Prop :=
  n ≤ smallestRegion ∨ n % smallestRegion = 0 ∨ (n % smallestRegion = 8 ∧ n + 8 < 2 ^ 64)

instance : DecidablePred RoundsUp := fun n =>
  inferInstanceAs (Decidable (n ≤ smallestRegion ∨ n % smallestRegion = 0 ∨
    (n % smallestRegion = 8 ∧ n + 8 < 2 ^ 64)))

theorem leastMultiple_iff : LeastMultiple n m ↔
    smallestRegion ∣ m ∧ max n smallestRegion ≤ m ∧ m < max n smallestRegion + smallestRegion := by
  unfold LeastMultiple IsLeast lowerBounds
  rw [smallestRegion_eq]
  constructor
  · rintro ⟨⟨hdvd, hle⟩, hleast⟩
    refine ⟨hdvd, hle, ?_⟩
    by_contra hge
    have := hleast (a := m - 16) ⟨Nat.dvd_sub hdvd (dvd_refl 16), by omega⟩
    omega
  · rintro ⟨hdvd, hle, hlt⟩
    refine ⟨⟨hdvd, hle⟩, fun k hk => ?_⟩
    obtain ⟨hk, hkn⟩ := hk
    omega

theorem leastMultiple_alignRequest_iff : LeastMultiple n (alignRequest n) ↔ RoundsUp n := by
  rw [leastMultiple_iff]
  unfold alignRequest RoundsUp
  rw [smallestRegion_eq]
  split
  · omega
  · split
    · omega
    · omega

theorem RoundsUp.align (h : RoundsUp n) : smallestRegion ∣ alignRequest n ∧
    smallestRegion ≤ alignRequest n ∧ n ≤ alignRequest n ∧ alignRequest n % 2 = 0 := by
  obtain ⟨hdvd, hle, -⟩ := leastMultiple_iff.mp (leastMultiple_alignRequest_iff.mpr h)
  have heven : 2 ∣ smallestRegion := by decide
  exact ⟨hdvd, (Nat.le_max_right _ _).trans hle, (Nat.le_max_left _ _).trans hle,
    Nat.mod_eq_zero_of_dvd (heven.trans hdvd)⟩

end Rounding

/-! ## Runs on heaps that stay well formed -/

/-- The numbers of bytes asked for. -/
def requests : List Action → List Nat
  | [] => []
  | .salloc _ n :: as => n :: requests as
  | _ :: as => requests as

theorem requests_append (as as' : List Action) :
    requests (as ++ as') = requests as ++ requests as' := by
  induction as with
  | nil => rfl
  | cons a as ih => cases a <;> simp [requests, ih]

/-- The client asks for whatever it likes, releases live allocations, and writes inside
them. -/
def Config.Legal (c : Config) : Action → Prop
  | .salloc _ _ => True
  | .sfree ptr => ∃ a ∈ c.live, a.ptr = ptr
  | .write addr _ => ∃ a ∈ c.live, a.ptr ≤ addr ∧ addr < a.ptr + a.bytes

/-- The configuration after the actions of a list, the last one first, when every one of
them has returned and left a well-formed heap. -/
inductive Config.Run (steps : Nat) (mem : Memory) : List Action → Config → Prop
  | start : Run steps mem [] (.start mem)
  | step {as : List Action} {c c' : Config} {a : Action} {bs : List Block}
      (hrun : Run steps mem as c) (hlegal : c.Legal a) (hexec : c.exec steps a = .ok c')
      (hwf : WellFormed c'.heap bs) : Run steps mem (a :: as) c'

/-- The sizes of the blocks, and the pointers that `salloc` has returned. -/
structure Config.Aligned (c : Config) : Prop where
  sizes : ∀ bs, WellFormed c.heap bs → ∀ b ∈ bs, smallestRegion ∣ b.size
  ptrs : ∀ a ∈ c.live, smallestRegion ∣ a.ptr

/-- What carries the induction. A heap without blocks is one whose first `mmap` failed. -/
structure Config.HeldAligned (c : Config) (bs : List Block) : Prop where
  held : c.Held bs
  sizes : ∀ b ∈ bs, smallestRegion ∣ b.size
  head : (c.heap.head = mapFailed ∧ bs = []) ∨ (smallestRegion ∣ c.heap.head ∧ bs ≠ [])

namespace Config.HeldAligned

variable {c c' : Config} {s₀ : Heap} {p q bs bs' : List Block} {b : Block} {steps n : Nat} {os : Os}

theorem addr_dvd (h : c.HeldAligned bs) (hb : b ∈ bs) : smallestRegion ∣ b.addr := by
  rcases h.head with ⟨-, rfl⟩ | ⟨hhead, -⟩
  · cases hb
  · exact h.held.wellFormed.blocks.tiles.dvd_start hhead h.sizes hb

theorem aligned (h : c.HeldAligned bs) : c.Aligned where
  sizes bs' h' := by
    rw [← h.held.wellFormed.toFormed.unique h'.toFormed]
    exact h.sizes
  ptrs a ha := by
    obtain ⟨b, hb, hptr, -⟩ := h.held.block ha
    have hb := (mem_used.mp hb).1
    rw [← hptr]
    exact (Nat.dvd_add_right (h.addr_dvd hb)).mpr (by decide)

/-- A request that is served from a free block. -/
theorem hand_out {s' : Heap} {ptr : Nat} (h : HeldAligned ⟨s₀, c.live⟩ (p ++ b :: q))
    (hfree : b.free = true) (hround : RoundsUp n) (hfit : alignRequest n ≤ usableSizeOf b.size)
    (htake : s₀.take b.addr (alignRequest n) = .ok (s', ptr)) (h' : WellFormed s' bs') :
    ptr ≠ 0 ∧ ∃ bs, HeldAligned ⟨s', ⟨ptr, n⟩ :: c.live⟩ bs := by
  obtain ⟨hdvd, hmin, hle, heven⟩ := hround.align
  have hwf : WellFormed s₀ (p ++ b :: q) := h.held.wellFormed
  have hbm : b ∈ p ++ b :: q := by simp
  have hoff : regionOffset = 16 := rfl
  have hsmall := smallestRegion_eq
  have hsize := h.sizes b hbm
  have hfits := b.fits
  have hhdr : sizeofSallocT = 32 := rfl
  have husable : usableSizeOf b.size = b.size - regionOffset :=
    sizeSub_eq_sub (by omega) (hwf.size_lt hbm)
  have hleft : sizeSub (usableSizeOf b.size) (alignRequest n) =
      b.size - regionOffset - alignRequest n := by
    rw [husable] at hfit ⊢
    exact sizeSub_eq_sub hfit (by have := hwf.size_lt hbm; omega)
  have hleftdvd : smallestRegion ∣ sizeSub (usableSizeOf b.size) (alignRequest n) := by
    rw [hleft]
    exact Nat.dvd_sub (Nat.dvd_sub hsize (by decide)) hdvd
  have hnotexact : usableSizeOf b.size ≠ alignRequest n := fun hexact =>
    hwf.take_exact hfree hexact htake h'.toFormed
  have hslack : smallestRegion ≤ sizeSub (usableSizeOf b.size) (alignRequest n) := by
    refine Nat.le_of_dvd ?_ hleftdvd
    omega
  obtain ⟨s'', b', r, htake', hr, hwf', haddr, hused, hroom, -, hrest, hmul⟩ :=
    hwf.take_slack hfree heven hmin hfit hslack
  obtain ⟨rfl, rfl⟩ := Prod.mk.inj (Except.ok.inj (htake'.symm.trans htake))
  obtain ⟨hb', hr'⟩ := hmul _ hsize hleftdvd
  refine ⟨by unfold regionStart; omega, p ++ b' :: r, ?_, ?_, .inr ⟨?_, by simp⟩⟩
  · exact h.held.hand_out hfree hwf' hr haddr hused
      (Nat.le_trans (Nat.add_le_add_right hle _) hroom) hrest
  · intro x hx
    rcases List.mem_append.mp hx with hx | hx
    · exact h.sizes x (List.mem_append_left _ hx)
    · rcases List.mem_cons.mp hx with rfl | hx
      · exact hb'
      · rcases hr' x hx with hxq | hxd
        · exact h.sizes x (by simp [hxq])
        · exact hxd
  · rcases h.head with ⟨-, hnil⟩ | ⟨hhead, -⟩
    · simp at hnil
    · exact hr.head.symm ▸ hhead

/-- A request on a heap that is ready. -/
theorem salloc_ready (h : HeldAligned ⟨s₀, c.live⟩ bs) (hsteps : allocSize ≤ steps)
    (hready : c.heap.ready os = .ok (s₀, 0)) (hround : RoundsUp n)
    (hexec : c.exec steps (.salloc os n) = .ok c') (h' : WellFormed c'.heap bs') :
    ∃ bs, c'.HeldAligned bs := by
  obtain ⟨-, hmin, -, heven⟩ := hround.align
  have hwf : WellFormed s₀ bs := h.held.wellFormed
  obtain ⟨⟨s', ptr⟩, hret, hc'⟩ := bind_eq_ok.mp hexec
  obtain rfl := Except.ok.inj hc'
  rcases hwf.firstFit (h.held.bounded hsteps) (alignRequest n) with
    ⟨b, hb, hfree, hfit, hfirst⟩ | ⟨hnone, -⟩
  · obtain ⟨p, q, rfl⟩ := List.append_of_mem hb
    rw [Heap.salloc_of_fit hready hfirst] at hret
    obtain ⟨hptr, bs, hheld⟩ := h.hand_out hfree hround hfit hret h'
    rw [if_neg hptr]
    exact ⟨bs, hheld⟩
  · have hret₀ : s₀.salloc os steps n = .ok (s', ptr) := by
      rw [← Heap.salloc_of_ready hready hwf.pos.ne']
      exact hret
    have hsame : s' = s₀ ∧ ptr = 0 := by
      rcases h.head with ⟨hfailed, rfl⟩ | ⟨-, hne⟩
      · exact hwf.salloc_grow_mapFailed hfailed hmin heven hnone hret₀ h'.toFormed
      · exact hwf.salloc_grow_damages hne hmin heven hnone hret₀ h'.toFormed
    obtain ⟨rfl, rfl⟩ := hsame
    exact ⟨bs, h⟩

/-- A block that is released is merged with whole blocks. -/
theorem dvd_release {d : Nat} (h : ∀ x ∈ p ++ b :: q, d ∣ x.size) :
    ∀ x ∈ release p b q, d ∣ x.size := by
  have hb : d ∣ (b.withFree true).size := h b (by simp)
  have hnext : ∀ x ∈ (absorbNext (b.withFree true) q).1 :: (absorbNext (b.withFree true) q).2,
      d ∣ x.size := by
    rw [List.forall_mem_cons]
    cases q with
    | nil => exact ⟨hb, by simp [absorbNext]⟩
    | cons n q =>
      cases hn : n.free with
      | true =>
        rw [absorbNext_cons_free hn]
        exact ⟨(Nat.dvd_add_right hb).mpr (h n (by simp)), fun x hx => h x (by simp [hx])⟩
      | false =>
        rw [absorbNext_cons_used hn]
        exact ⟨hb, fun x hx => h x (by simp [List.mem_cons.mp hx])⟩
  unfold release
  rcases List.eq_nil_or_concat' p with rfl | ⟨p, y, rfl⟩
  · rw [absorbPrev_nil]
    exact hnext
  · have hy : d ∣ y.size := h y (by simp)
    cases hyf : y.free with
    | true =>
      rw [absorbPrev_concat_free hyf]
      intro x hx
      rcases List.mem_append.mp hx with hx | hx
      · exact h x (by simp [hx])
      · rcases List.mem_cons.mp hx with rfl | hx
        · exact (Nat.dvd_add_right hy).mpr (hnext _ List.mem_cons_self)
        · exact hnext x (List.mem_cons_of_mem _ hx)
    | false =>
      rw [absorbPrev_concat_used hyf]
      intro x hx
      rcases List.mem_append.mp hx with hx | hx
      · exact h x (List.mem_append_left _ hx)
      · exact hnext x hx

/-- Releasing a live allocation. -/
theorem sfree (h : c.HeldAligned bs) (hsteps : allocSize ≤ steps) {ptr : Nat}
    (hlegal : c.Legal (.sfree ptr)) (hexec : c.exec steps (.sfree ptr) = .ok c') :
    ∃ bs, c'.HeldAligned bs := by
  obtain ⟨a, ha, rfl⟩ := hlegal
  obtain ⟨b, hb, hptr, -⟩ := h.held.block ha
  obtain ⟨s', bs', hs', hr, hheld⟩ := h.held.release hsteps ha
  obtain ⟨s'', p, q, rfl, hs'', -, hwf⟩ := h.held.wellFormed.sfree_of_used hb
  rw [hptr] at hs''
  obtain rfl := Except.ok.inj ((hs'' steps (h.held.bounded hsteps)).symm.trans hs')
  obtain rfl := hheld.wellFormed.toFormed.unique hwf.toFormed
  obtain rfl := Except.ok.inj ((exec_sfree hs').symm.trans hexec)
  obtain ⟨d, hd, -⟩ := release_within h.held.wellFormed.blocks.tiles
  refine ⟨_, hheld, dvd_release h.sizes, .inr ⟨?_, List.ne_nil_of_mem hd⟩⟩
  rcases h.head with ⟨-, hnil⟩ | ⟨hhead, -⟩
  · simp at hnil
  · exact hr.head.symm ▸ hhead

/-- Writing inside a live allocation. -/
theorem write (h : c.HeldAligned bs) {addr : Nat} {byte : Fin 256}
    (hlegal : c.Legal (.write addr byte)) (hexec : c.exec steps (.write addr byte) = .ok c') :
    c'.HeldAligned bs := by
  obtain ⟨a, ha, hlo, hhi⟩ := hlegal
  have hx := h.held.inPayload ha hlo hhi
  have hwrite : c.exec steps (.write addr byte) = .ok
      { c with heap := { c.heap with mem := c.heap.mem.setByte addr byte } } :=
    if_pos (h.held.wellFormed.mapped_payload hx)
  obtain rfl := Except.ok.inj (hwrite.symm.trans hexec)
  exact ⟨h.held.setByte hx byte, h.sizes, h.head⟩

end Config.HeldAligned

/-- The client's configurations: the allocator not yet called, or all multiples. -/
inductive Config.StartedAligned (mem : Memory) (c : Config) : Prop
  | start (h : c = Config.start mem)
  | held (bs : List Block) (h : c.HeldAligned bs)

section Runs

variable {steps n : Nat} {c c' : Config} {a : Action} {as : List Action} {mem : Memory}
  {bs : List Block} {os : Os}

/-- The first call of all. -/
theorem Config.start_salloc_aligned (hsteps : allocSize ≤ steps) (hround : RoundsUp n)
    (hexec : (Config.start mem).exec steps (.salloc os n) = .ok c') (h' : WellFormed c'.heap bs) :
    ∃ bs, c'.HeldAligned bs := by
  obtain ⟨first, canExtend⟩ := os
  cases first with
  | none =>
    have hready : (Config.start mem).heap.ready ⟨none, canExtend⟩ =
        .ok ({ (Config.start mem).heap with head := mapFailed }, -1) := rfl
    obtain rfl := Except.ok.inj
      ((Config.exec_salloc (Heap.salloc_of_failed hready)).symm.trans hexec)
    exact ⟨[], ⟨wellFormed_mapFailed, Nat.zero_le _, List.Perm.nil, nofun⟩, nofun, .inl ⟨rfl, rfl⟩⟩
  | some region =>
    obtain ⟨s₀, hs₀, hhead, htotal, hwf⟩ :=
      Heap.initSalloc_spec (Config.start mem).heap region canExtend
    have hheld : Config.HeldAligned ⟨s₀, (Config.start mem).live⟩ [freshBlock region] := by
      refine ⟨⟨hwf, Nat.le_of_eq htotal, List.Perm.nil, nofun⟩, ?_, .inr ⟨?_, by simp⟩⟩
      · rw [List.forall_mem_singleton]
        exact (by decide : smallestRegion ∣ allocSize)
      · have hpage : smallestRegion ∣ 4096 := by decide
        rw [hhead]
        exact hpage.trans (Nat.dvd_of_mod_eq_zero region.aligned)
    have hready : (Config.start mem).heap.ready ⟨some region, canExtend⟩ = .ok (s₀, 0) :=
      (if_pos rfl).trans hs₀
    exact hheld.salloc_ready hsteps hready hround hexec h'

/-- **Step.** What a legal action leaves, if it leaves a heap, are multiples. -/
theorem Config.StartedAligned.exec (h : c.StartedAligned mem) (hsteps : allocSize ≤ steps)
    (hlegal : c.Legal a) (hround : ∀ n ∈ requests [a], RoundsUp n)
    (hexec : c.exec steps a = .ok c') (hwf : WellFormed c'.heap bs) :
    ∃ bs, c'.HeldAligned bs := by
  cases h with
  | start hc =>
    subst hc
    cases a with
    | salloc os n =>
      exact Config.start_salloc_aligned hsteps (hround n (by simp [requests])) hexec hwf
    | sfree ptr =>
      obtain ⟨x, hx, -⟩ := hlegal
      cases hx
    | write addr byte =>
      obtain ⟨x, hx, -⟩ := hlegal
      cases hx
  | held bs h =>
    cases a with
    | salloc os n =>
      have hready : c.heap.ready os = .ok (c.heap, 0) := if_neg h.held.wellFormed.pos.ne'
      exact h.salloc_ready hsteps hready (hround n (by simp [requests])) hexec hwf
    | sfree ptr => exact h.sfree hsteps hlegal hexec
    | write addr byte => exact ⟨bs, h.write hlegal hexec⟩

/-- **Run.** -/
theorem Config.Run.startedAligned (hsteps : allocSize ≤ steps) (hrun : Run steps mem as c)
    (hround : ∀ n ∈ requests as, RoundsUp n) : c.StartedAligned mem := by
  induction hrun with
  | start => exact .start rfl
  | @step as c c' a bs _ hlegal hexec hwf ih =>
    rw [← List.singleton_append, requests_append, List.forall_mem_append] at hround
    obtain ⟨bs', h'⟩ := (ih hround.2).exec hsteps hlegal hround.1 hexec hwf
    exact .held bs' h'

theorem Config.StartedAligned.aligned (h : c.StartedAligned mem) : c.Aligned := by
  cases h with
  | start hc =>
    subst hc
    exact ⟨fun bs h => absurd h.pos (Nat.lt_irrefl 0), nofun⟩
  | held bs h => exact h.aligned

/-- **When `salloc` keeps its alignment.** On a run over well-formed heaps all requests are
rounded up as promised, and all block sizes and pointers are multiples in every
configuration of the run, exactly if every request is one that is rounded up. -/
theorem aligned_iff (hsteps : allocSize ≤ steps) (hrun : Config.Run steps mem as c) :
    ((∀ as' c', as' <:+ as → Config.Run steps mem as' c' → c'.Aligned) ∧
      ∀ n ∈ requests as, LeastMultiple n (alignRequest n)) ↔ ∀ n ∈ requests as, RoundsUp n := by
  constructor
  · rintro ⟨-, hleast⟩ n hn
    exact leastMultiple_alignRequest_iff.mp (hleast n hn)
  · intro hround
    refine ⟨?_, fun n hn => leastMultiple_alignRequest_iff.mpr (hround n hn)⟩
    rintro as' c' ⟨as₀, rfl⟩ hrun'
    rw [requests_append, List.forall_mem_append] at hround
    exact (hrun'.startedAligned hsteps hround.2).aligned

/-- A first request, for little enough. -/
theorem exists_run_salloc (hwrap : n + n % smallestRegion < 2 ^ 64)
    (hroom : roomFor [n] + sizeofSallocT ≤ allocSize) :
    ∃ c us rest, Config.Run allocSize .empty [.salloc secondPage n] c ∧ Carved c us rest ∧
      c.live.map Allocation.bytes = [n] := by
  obtain ⟨s₀, hs₀, -, hcarved⟩ := Heap.initial_initSalloc (Config.start .empty).heap
    ⟨4096, by decide, by decide, by decide⟩ false
  have hready : (Config.start .empty).heap.ready secondPage = .ok (s₀, 0) := (if_pos rfl).trans hs₀
  obtain ⟨s', ptr, us, rest, hret, hptr, -, hcarved'⟩ :=
    hcarved.salloc hready le_rfl hwrap hroom
  have hexec := Config.exec_salloc (c := .start .empty) hret
  rw [if_neg hptr] at hexec
  exact ⟨_, us, rest, .step .start trivial hexec hcarved'.wellFormed, hcarved', rfl⟩

/-- One more action of a run that takes no tight block. -/
theorem Config.Run.slackStep (hsteps : allocSize ≤ steps) (hrun : Config.Run steps mem as c)
    (hpath : Relation.ReflTransGen (Config.SlackStep steps) (Config.start mem) c)
    (hallowed : c.Allowed steps a) (hslack : c.Slack steps a) :
    Config.Run steps mem (a :: as) (c.after steps [a]) ∧
      Relation.ReflTransGen (Config.SlackStep steps) (Config.start mem) (c.after steps [a]) := by
  obtain ⟨c', bs, hexec, hheld⟩ := (Config.Started.run hsteps hpath).exec hsteps hallowed hslack
  have hafter : c.after steps [a] = c' := by
    rw [Config.after, hexec]
    rfl
  have hlegal : c.Legal a := by
    cases a with
    | salloc os n => trivial
    | sfree ptr => exact hallowed
    | write addr byte => exact hallowed
  rw [hafter]
  exact ⟨hrun.step hlegal hexec hheld.wellFormed, hpath.tail ⟨a, hallowed, hslack, hexec⟩⟩

/-- Three requests, the release of the second one, and one more. -/
theorem aligned_iff_first : ∃ c,
    Config.Run allocSize .empty [.salloc secondPage 40, .sfree 4144, .salloc secondPage 16,
      .salloc secondPage 24, .salloc secondPage 16] c ∧
    c.live.map Allocation.ptr = [4224, 4192, 4112] ∧
    (∀ as' c', as' <:+ [.salloc secondPage 40, .sfree 4144, .salloc secondPage 16,
        .salloc secondPage 24, .salloc secondPage 16] →
      Config.Run allocSize .empty as' c' → c'.Aligned) ∧
    ∀ n ∈ [40, 16, 24, 16], LeastMultiple n (alignRequest n) := by
  have htight {c : Config} {n : Nat} (h : c.heap.tightFit secondPage allocSize n = false) :
      c.Slack allocSize (.salloc secondPage n) := h
  have h₀ : Config.Run allocSize .empty [] (.start .empty) := .start
  obtain ⟨h₁, p₁⟩ := h₀.slackStep (a := .salloc secondPage 16) le_rfl .refl
    ⟨by decide, by decide +kernel⟩ (htight (by decide +kernel))
  obtain ⟨h₂, p₂⟩ := h₁.slackStep (a := .salloc secondPage 24) le_rfl p₁
    ⟨by decide, by decide +kernel⟩ (htight (by decide +kernel))
  obtain ⟨h₃, p₃⟩ := h₂.slackStep (a := .salloc secondPage 16) le_rfl p₂
    ⟨by decide, by decide +kernel⟩ (htight (by decide +kernel))
  obtain ⟨h₄, p₄⟩ := h₃.slackStep (a := .sfree 4144) le_rfl p₃
    ⟨⟨4144, 24⟩, by decide +kernel, rfl⟩ trivial
  obtain ⟨h₅, -⟩ := h₄.slackStep (a := .salloc secondPage 40) le_rfl p₄
    ⟨by decide, by decide +kernel⟩ (htight (by decide +kernel))
  have hround : ∀ n ∈ [40, 16, 24, 16], RoundsUp n := by
    unfold RoundsUp
    decide
  obtain ⟨haligned, hleast⟩ := (aligned_iff le_rfl h₅).mpr hround
  exact ⟨_, h₅, by decide +kernel, haligned, hleast⟩

/-- A request for 17 bytes is rounded to 18, and the next block begins at 34. -/
theorem not_aligned_seventeen : ∃ c, Config.Run allocSize .empty [.salloc secondPage 17] c ∧
    ¬c.Aligned ∧ ¬LeastMultiple 17 (alignRequest 17) := by
  obtain ⟨c, us, rest, hrun, hcarved, hbytes⟩ :=
    exists_run_salloc (n := 17) (by decide) (by decide)
  refine ⟨c, hrun, fun haligned => ?_, ?_⟩
  · have hrest := hcarved.rest_size
    rw [hbytes] at hrest
    have hdvd := haligned.sizes _ hcarved.wellFormed rest (by simp)
    have hroom : roomFor [17] = 34 := by decide
    have hsize := allocSize_eq
    rw [smallestRegion_eq] at hdvd
    omega
  · rw [leastMultiple_alignRequest_iff]
    decide

end Runs

end Chronos.Salloc
