import Chronos.Salloc.Carve
import Chronos.Shared.Defs

/-!
# Obtaining the objects

Every call of `salloc` is served as long as the requests fit into the region, and
what the program stores stays in the payloads of its objects as long as no list of
locks is longer than its `my_locks`.
-/

namespace Chronos.Shared

open Lib Salloc Taskset

/-! ## Stores -/

section Stores

variable {s : Heap} {bs : List Block}

theorem storeBytes_ok {stores : List (Nat × Fin 256)} (h : WellFormed s bs)
    (hin : ∀ p ∈ stores, InPayload bs p.1) :
    ∃ mem, storeBytes s stores = .ok { s with mem } ∧ WellFormed { s with mem } bs := by
  induction stores generalizing s with
  | nil => exact ⟨s.mem, rfl, h⟩
  | cons p stores ih =>
    have hp := hin p List.mem_cons_self
    obtain ⟨mem, hmem, h'⟩ := ih (h.setByte hp p.2) fun q hq => hin q (List.mem_cons_of_mem _ hq)
    exact ⟨mem, (if_pos (h.mapped_payload hp)).trans hmem, h'⟩

theorem storePointer_ok {addr : Nat} (ptr : Nat) (h : WellFormed s bs)
    (hin : ∀ i < sizeofPointer, InPayload bs (addr + i)) :
    ∃ mem, storePointer s addr ptr = .ok { s with mem } ∧ WellFormed { s with mem } bs :=
  ⟨_, if_pos fun i hi => h.mapped_payload (hin i hi), h.poke hin⟩

theorem storeLocks_ok (locks : Nat) {addr : Nat} {ls : List Int} (h : WellFormed s bs)
    (hin : ∀ i < sizeofPointer * ls.length, InPayload bs (addr + i)) :
    ∃ mem, storeLocks locks ls addr s = .ok { s with mem } ∧ WellFormed { s with mem } bs := by
  induction ls generalizing s addr with
  | nil => exact ⟨s.mem, rfl, h⟩
  | cons l ls ih =>
    rw [List.length_cons, Nat.mul_add_one] at hin
    have hrest : ∀ i < sizeofPointer * ls.length, InPayload bs (addr + sizeofPointer + i) := by
      intro i hi
      rw [Nat.add_assoc]
      exact hin _ (by omega)
    obtain ⟨mem₁, hmem₁, h₁⟩ := storePointer_ok (lockAddr locks l) h fun i hi => hin i (by omega)
    obtain ⟨mem₂, hmem₂, h₂⟩ := ih h₁ hrest
    exact ⟨mem₂, bind_eq_ok.mpr ⟨_, hmem₁, hmem₂⟩, h₂⟩

end Stores

/-! ## One object -/

/-- **The objects so far** lie one behind the other in the first region. -/
structure Laid (region : Region) (s : Heap) (objects : List Allocation) : Prop where
  head : s.head = region.base
  small : ∀ a ∈ objects, a.bytes < 2 ^ 63
  carved : ∃ us rest, Carved ⟨s, objects⟩ us rest

section Laid

variable {region : Region} {s s₀ : Heap} {objects : List Allocation} {a : Allocation}

theorem no_wrap {n : Nat} (h : n < 2 ^ 63) : n + n % smallestRegion < 2 ^ 64 := by
  rw [smallestRegion_eq]
  omega

/-- No later call finds the heap uninitialised. -/
theorem Laid.ready (h : Laid region s objects) (os : Os) : s.ready os = .ok (s, 0) := by
  have hhead : s.head ≠ 0 := by
    rw [h.head]
    exact Nat.pos_iff_ne_zero.mp region.pos
  exact if_neg hhead

/-- The first call initialises it. -/
theorem Laid.start (region : Region) (mem : Memory) (canExtend : Bool) :
    ∃ s₀, (State.start mem).heap.ready ⟨some region, canExtend⟩ = .ok (s₀, 0) ∧
      Laid region s₀ [] := by
  obtain ⟨s₀, hs₀, hinit, hcarved⟩ := (State.start mem).heap.initial_initSalloc region canExtend
  exact ⟨s₀, hs₀, hinit.head, nofun, [], freshBlock region, hcarved⟩

theorem Laid.held (h : Laid region s objects) : ∃ bs, Config.Held ⟨s, objects⟩ bs := by
  obtain ⟨us, rest, hcarved⟩ := h.carved
  exact ⟨_, hcarved.held fun a ha => no_wrap (h.small a ha)⟩

/-- What is stored in objects leaves all of them where they are. -/
theorem Laid.storeBytes (h : Laid region s objects) {stores : List (Nat × Fin 256)}
    (hin : ∀ p ∈ stores, ∃ a ∈ objects, a.ptr ≤ p.1 ∧ p.1 < a.ptr + a.bytes) :
    ∃ heap, storeBytes s stores = .ok heap ∧ Laid region heap objects := by
  obtain ⟨us, rest, hcarved⟩ := h.carved
  obtain ⟨mem, hmem, hwf⟩ := storeBytes_ok hcarved.wellFormed fun p hp => by
    obtain ⟨a, ha, hlo, hhi⟩ := hin p hp
    have := le_alignRequest (no_wrap (h.small a ha))
    exact hcarved.inPayload ha hlo (by omega)
  exact ⟨_, hmem, h.head, h.small, us, rest, hcarved.of_payload hwf⟩

/-- Pointers may fill the object up to the size that `salloc` has rounded to. -/
theorem Laid.storeLocks (h : Laid region s objects) (ha : a ∈ objects) (locks : Nat) {ls : List Int}
    (hfit : sizeofPointer * ls.length ≤ alignRequest a.bytes) :
    ∃ heap, storeLocks locks ls a.ptr s = .ok heap ∧ Laid region heap objects := by
  obtain ⟨us, rest, hcarved⟩ := h.carved
  have hin : ∀ i < sizeofPointer * ls.length, InPayload (us ++ [rest]) (a.ptr + i) :=
    fun i hi => hcarved.inPayload ha (by omega) (by omega)
  obtain ⟨mem, hmem, hwf⟩ := storeLocks_ok locks hcarved.wellFormed hin
  exact ⟨_, hmem, h.head, h.small, us, rest, hcarved.of_payload hwf⟩

variable {E : Surroundings} {S : State} {n : Nat}

/-- **An object is obtained** when its request fits behind the others. -/
theorem allocate_ok (hready : S.heap.ready E.os = .ok (s₀, 0)) (h : Laid region s₀ S.obtained)
    (hsteps : allocSize ≤ E.steps) (hn : n < 2 ^ 63)
    (hroom : roomFor (n :: S.obtained.map Allocation.bytes) + sizeofSallocT ≤ allocSize) :
    ∃ heap ptr, allocate E n S =
        .ok ({ S with heap, obtained := ⟨ptr, n⟩ :: S.obtained }, ptr) ∧
      ptr ≠ 0 ∧ Laid region heap (⟨ptr, n⟩ :: S.obtained) := by
  obtain ⟨us, rest, hcarved⟩ := h.carved
  obtain ⟨s, ptr, us', rest', hs, hptr, hr, hcarved'⟩ :=
    hcarved.salloc hready hsteps (no_wrap hn) hroom
  have hlaid : Laid region s (⟨ptr, n⟩ :: S.obtained) := by
    refine ⟨hr.head.trans h.head, ?_, us', rest', hcarved'⟩
    rintro a (- | ⟨_, ha⟩)
    · exact hn
    · exact h.small a ha
  have hin : ∀ p ∈ ((E.contents ptr).take n).mapIdx fun i byte => (ptr + i, byte),
      ∃ a ∈ (⟨ptr, n⟩ :: S.obtained : List Allocation), a.ptr ≤ p.1 ∧ p.1 < a.ptr + a.bytes := by
    intro p hp
    obtain ⟨i, hi, rfl⟩ := List.mem_mapIdx.mp hp
    rw [List.length_take] at hi
    exact ⟨⟨ptr, n⟩, List.mem_cons_self, Nat.le_add_right _ _, by dsimp only; omega⟩
  obtain ⟨heap, hheap, hlaid'⟩ := hlaid.storeBytes hin
  refine ⟨heap, ptr, ?_, hptr, hlaid'⟩
  unfold allocate
  simp only [hs, if_neg hptr]
  exact bind_eq_ok.mpr ⟨heap, hheap, rfl⟩

end Laid

/-! ## The requests of a file -/

/-- An allocator that serves every request for less than `2 ^ 63` bytes, and lists
the requests. -/
def recorder : Allocator (List Nat) where
  salloc requests n := if n < 2 ^ 63 then some (requests ++ [n], true) else some (requests, false)
  refuses requests n requests' hn _ h := by
    rw [if_neg (Nat.not_lt.mpr hn)] at h
    cases h

theorem serve_recorder {requests requests' ns : List Nat} :
    recorder.serve requests ns = some requests' ↔
      requests' = requests ++ ns ∧ ∀ n ∈ ns, n < 2 ^ 63 := by
  induction ns generalizing requests with
  | nil => simp [Allocator.serve, eq_comm]
  | cons n ns ih =>
    rw [List.forall_mem_cons]
    by_cases hn : n < 2 ^ 63
    · have hserve : recorder.serve requests (n :: ns) = recorder.serve (requests ++ [n]) ns := by
        simp only [Allocator.serve, recorder, if_pos hn]
      rw [hserve, ih, List.append_assoc, List.singleton_append, and_iff_right hn]
    · have hserve : recorder.serve requests (n :: ns) = none := by
        simp only [Allocator.serve, recorder, if_neg hn]
      rw [hserve]
      constructor
      · intro h
        cases h
      · rintro ⟨-, hn', -⟩
        exact absurd hn' hn

/-- The requests fit into the first region, with that for the barrier and a header to
spare. -/
def Fits (requests : List Nat) : Prop :=
  roomFor (sizeofPthreadBarrierT :: requests) + sizeofSallocT ≤ allocSize

instance (requests : List Nat) : Decidable (Fits requests) := inferInstanceAs (Decidable (_ ≤ _))

theorem Fits.left {requests ns : List Nat} (h : Fits (requests ++ ns)) : Fits requests := by
  unfold Fits at h ⊢
  rw [roomFor_cons, roomFor_append] at h
  rw [roomFor_cons]
  omega

theorem roomFor_perm {ns ns' : List Nat} (h : ns.Perm ns') : roomFor ns = roomFor ns' :=
  (h.map blockSize).sum_eq

/-! ## The objects of a file -/

/-- The pointers of a task, in the order in which they are released. -/
def TaskObject.pointers (t : TaskObject) : List Nat :=
  (if t.myLocks ≠ 0 then [t.myLocks] else []) ++ [t.task]

/-- The pointers the program holds before there is an array of the tasks. -/
def State.pointers (S : State) : List Nat :=
  (if 0 ≤ S.numLocks then [S.locks] else []) ++
    (S.domainMasks :: S.taskList.flatMap TaskObject.pointers ++ [S.barrier])

/-- No list of locks is longer than its `my_locks`, whose size `salloc` rounds up. -/
def CountFits (numLocks : Int) (token : List Char) : Prop :=
  sizeofPointer * (lockIds numLocks token).length ≤
    alignRequest (toULong (sizeofPointer * numLocks))

/-- **The memory follows the tester**: after the same entries the objects are those
that the tester has requested, and the program holds a pointer to each. -/
structure Follows (region : Region) (items : List Item) (T : Tester (List Nat)) (S : State) :
    Prop where
  laid : Laid region S.heap S.obtained
  released : S.released = []
  bytes : (S.obtained.map Allocation.bytes).Perm (sizeofPthreadBarrierT :: T.heap)
  pointers : (S.obtained.map Allocation.ptr).Perm S.pointers
  numLocks : S.numLocks = T.numLocks
  locks : 0 ≤ S.numLocks → ⟨S.locks, toULong (sizeofChronosMutexT * S.numLocks)⟩ ∈ S.obtained
  tasks : S.taskList.length = T.taskList.length
  lists : ∀ t ∈ S.taskList, ∀ l ∈ t.locks, ∃ item ∈ items, ∃ token ∈ item.lockList,
    l ∈ lockIds S.numLocks token

section Follows

variable {E : Surroundings} {region : Region} {m : Machine} {items : List Item}
  {T T' : Tester (List Nat)} {S : State} {n : Nat} {requests : List Nat}

/-- The next object that the file asks for. -/
theorem allocate_next (hlaid : Laid region S.heap S.obtained) (hsteps : allocSize ≤ E.steps)
    (hbytes : (S.obtained.map Allocation.bytes).Perm (sizeofPthreadBarrierT :: requests))
    (hn : n < 2 ^ 63) (hfits : Fits (requests ++ [n])) :
    ∃ heap ptr, allocate E n S =
        .ok ({ S with heap, obtained := ⟨ptr, n⟩ :: S.obtained }, ptr) ∧
      ptr ≠ 0 ∧ Laid region heap (⟨ptr, n⟩ :: S.obtained) ∧
      (n :: S.obtained.map Allocation.bytes).Perm (sizeofPthreadBarrierT :: (requests ++ [n])) := by
  have hperm : (n :: S.obtained.map Allocation.bytes).Perm
      (sizeofPthreadBarrierT :: (requests ++ [n])) :=
    (hbytes.cons n).trans (List.perm_append_singleton n (sizeofPthreadBarrierT :: requests)).symm
  obtain ⟨heap, ptr, hok, hptr, hlaid'⟩ := allocate_ok (hlaid.ready E.os) hlaid hsteps hn (by
    rw [roomFor_perm hperm]
    exact hfits)
  exact ⟨heap, ptr, hok, hptr, hlaid', hperm⟩

/-- An entry that is neither the `L` line nor a task changes nothing here. -/
theorem Follows.other {item : Item} (h : Follows region items T S) (hheap : T'.heap = T.heap)
    (hnum : T'.numLocks = T.numLocks) (hlen : T'.taskList.length = T.taskList.length) :
    Follows region (items ++ [item]) T' S where
  laid := h.laid
  released := h.released
  bytes := hheap ▸ h.bytes
  pointers := h.pointers
  numLocks := h.numLocks.trans hnum.symm
  locks := h.locks
  tasks := h.tasks.trans hlen.symm
  lists t ht l hl := by
    obtain ⟨i, hi, hrest⟩ := h.lists t ht l hl
    exact ⟨i, List.mem_append_left _ hi, hrest⟩

theorem Follows.readLocks {w : Word Int} (h : Follows region items T S)
    (hsteps : allocSize ≤ E.steps) (hinv : LocksInv items T)
    (hload : loadItem recorder m T (.locks w) = .ok T') (hfits : Fits T'.heap) :
    ∃ S', readItem E S (.locks w) = .ok S' ∧ Follows region (items ++ [.locks w]) T' S' := by
  obtain ⟨hnum, hpos, requests, hserve, rfl⟩ := loadItem_locks_eq_ok.mp hload
  obtain ⟨rfl, hsmall⟩ := serve_recorder.mp hserve
  rw [List.forall_mem_singleton] at hsmall
  obtain ⟨heap, ptr, hok, -, hlaid, hbytes⟩ := allocate_next h.laid hsteps h.bytes hsmall hfits
  have hnone : T.taskList = [] := (hinv.before (by omega)).1
  have hnone' : S.taskList = [] := by
    rw [← List.length_eq_zero_iff, h.tasks, hnone]
    rfl
  refine ⟨_, bind_eq_ok.mpr ⟨_, hok, rfl⟩, hlaid, h.released, hbytes, ?_, rfl,
    fun _ => List.mem_cons_self, h.tasks, ?_⟩
  · have hptrs := h.pointers
    rw [State.pointers, if_neg (by rw [h.numLocks, hnum]; decide)] at hptrs
    rw [State.pointers, if_pos hpos]
    exact hptrs.cons ptr
  · intro t ht
    dsimp only at ht
    rw [hnone'] at ht
    cases ht

theorem State.pointers_addTask (S : State) (t : TaskObject) :
    (t.pointers ++ S.pointers).Perm { S with taskList := t :: S.taskList }.pointers := by
  unfold State.pointers
  refine (List.perm_append_comm_assoc _ _ _).trans (List.Perm.append_left _ ?_)
  simp only [List.cons_append, List.flatMap_cons, List.append_assoc]
  exact List.perm_middle

theorem Follows.readTask {w : TaskFields} {optional : Option (Word (List Char) × Option (Word Int))}
    (h : Follows region items T S) (hsteps : allocSize ≤ E.steps)
    (hload : loadItem recorder m T (.task w optional) = .ok T') (hfits : Fits T'.heap)
    (hcount : ∀ token ∈ (Item.task w optional).lockList, CountFits T'.numLocks token) :
    ∃ S', readItem E S (.task w optional) = .ok S' ∧
      Follows region (items ++ [.task w optional]) T' S' := by
  obtain ⟨hpos, -, htask⟩ := loadItem_task_eq_ok.mp hload
  obtain ⟨-, -, mask, masks, requests, -, -, -, hserve, rfl⟩ := loadTask_eq_ok.mp htask
  obtain ⟨rfl, hsmall⟩ := serve_recorder.mp hserve
  have hold : ∀ t ∈ S.taskList, ∀ l ∈ t.locks, ∃ item ∈ items ++ [.task w optional],
      ∃ token ∈ item.lockList, l ∈ lockIds S.numLocks token := fun t ht l hl => by
    obtain ⟨i, hi, hrest⟩ := h.lists t ht l hl
    exact ⟨i, List.mem_append_left _ hi, hrest⟩
  cases optional with
  | none =>
    simp only [taskRequests, List.forall_mem_singleton] at hsmall
    obtain ⟨heap, task, hok, -, hlaid, hbytes⟩ := allocate_next h.laid hsteps h.bytes hsmall hfits
    refine ⟨_, bind_eq_ok.mpr ⟨_, hok, rfl⟩, hlaid, h.released, hbytes, ?_, h.numLocks,
      fun hn => List.mem_cons_of_mem _ (h.locks hn), congrArg (· + 1) h.tasks, ?_⟩
    · exact (h.pointers.cons task).trans (S.pointers_addTask ⟨task, 0, []⟩)
    · rintro t (- | ⟨_, ht⟩) l hl
      · cases hl
      · exact hold t ht l hl
  | some p =>
    simp only [taskRequests, List.forall_mem_cons, ← h.numLocks] at hsmall
    have hrequests : T.heap ++ taskRequests T.numLocks (some p) =
        T.heap ++ [sizeofTask] ++ [toULong (sizeofPointer * S.numLocks)] := by
      rw [List.append_assoc, h.numLocks]
      rfl
    have hfits' : Fits (T.heap ++ [sizeofTask] ++ [toULong (sizeofPointer * S.numLocks)]) :=
      hrequests ▸ hfits
    obtain ⟨heap₁, task, htask, -, hlaid₁, hbytes₁⟩ :=
      allocate_next h.laid hsteps h.bytes hsmall.1 hfits'.left
    obtain ⟨heap₂, myLocks, hlocks, hnull, hlaid₂, hbytes₂⟩ := allocate_next
      (S := { S with heap := heap₁, obtained := ⟨task, sizeofTask⟩ :: S.obtained })
      hlaid₁ hsteps hbytes₁ hsmall.2.1 hfits'
    have hcount' : CountFits T.numLocks p.1.value := hcount p.1.value rfl
    rw [← h.numLocks] at hcount'
    obtain ⟨heap₃, hstore, hlaid₃⟩ := hlaid₂.storeLocks List.mem_cons_self S.locks hcount'
    have hinit : initializeTaskLocks E p.1.value
        { S with heap := heap₁, obtained := ⟨task, sizeofTask⟩ :: S.obtained } = .ok
          ({ S with
            heap := heap₃
            obtained := ⟨myLocks, toULong (sizeofPointer * S.numLocks)⟩ ::
              ⟨task, sizeofTask⟩ :: S.obtained }, myLocks) :=
      bind_eq_ok.mpr ⟨_, hlocks, bind_eq_ok.mpr ⟨heap₃, hstore, rfl⟩⟩
    refine ⟨_, bind_eq_ok.mpr ⟨_, htask, bind_eq_ok.mpr ⟨_, hinit, rfl⟩⟩, hlaid₃, h.released,
      ?_, ?_, h.numLocks, fun hn => List.mem_cons_of_mem _ (List.mem_cons_of_mem _ (h.locks hn)),
      congrArg (· + 1) h.tasks, ?_⟩
    · exact hrequests ▸ hbytes₂
    · refine ((h.pointers.cons task).cons myLocks).trans ?_
      have hadd := S.pointers_addTask ⟨task, myLocks, lockIds S.numLocks p.1.value⟩
      simp only [TaskObject.pointers, if_pos hnull] at hadd
      exact hadd
    · rintro t (- | ⟨_, ht⟩) l hl
      · exact ⟨.task w (some p), List.mem_append_right _ List.mem_cons_self, p.1.value, rfl, hl⟩
      · exact hold t ht l hl

/-- **One entry.** -/
theorem Follows.readItem {item : Item} (h : Follows region items T S) (hsteps : allocSize ≤ E.steps)
    (hinv : LocksInv items T) (hload : loadItem recorder m T item = .ok T') (hfits : Fits T'.heap)
    (hcount : ∀ token ∈ item.lockList, CountFits T'.numLocks token) :
    ∃ S', readItem E S item = .ok S' ∧ Follows region (items ++ [item]) T' S' := by
  cases item with
  | comment =>
    cases hload
    exact ⟨S, rfl, h.other rfl rfl rfl⟩
  | locks w => exact h.readLocks hsteps hinv hload hfits
  | task w optional => exact h.readTask hsteps hload hfits hcount
  | group g w =>
    obtain ⟨taskList, hset, rfl⟩ := loadItem_group_eq_ok.mp hload
    have hlen := congrArg List.length (map_setGroupWss Task.myLocks (fun _ _ => rfl) hset)
    rw [List.length_map, List.length_map] at hlen
    exact ⟨S, rfl, h.other rfl rfl hlen⟩

/-- The requests are listed one after the other, and the number of locks is set once. -/
theorem loadItem_recorder {item : Item} (hload : loadItem recorder m T item = .ok T') :
    (∃ ns, T'.heap = T.heap ++ ns) ∧ (T.numLocks = -1 ∨ T'.numLocks = T.numLocks) := by
  cases item with
  | comment =>
    cases hload
    exact ⟨⟨[], (List.append_nil _).symm⟩, .inr rfl⟩
  | locks w =>
    obtain ⟨hnum, -, requests, hserve, rfl⟩ := loadItem_locks_eq_ok.mp hload
    exact ⟨⟨_, (serve_recorder.mp hserve).1⟩, .inl hnum⟩
  | task w optional =>
    obtain ⟨-, -, htask⟩ := loadItem_task_eq_ok.mp hload
    obtain ⟨-, -, mask, masks, requests, -, -, -, hserve, rfl⟩ := loadTask_eq_ok.mp htask
    exact ⟨⟨_, (serve_recorder.mp hserve).1⟩, .inr rfl⟩
  | group g w =>
    obtain ⟨taskList, -, rfl⟩ := loadItem_group_eq_ok.mp hload
    exact ⟨⟨[], (List.append_nil _).symm⟩, .inr rfl⟩

/-- **The loop of `init_tasks`** obtains the objects that the tester has requested, if
they fit and the lists of locks do. -/
theorem Follows.readItems {T₂ : Tester (List Nat)} (h : Follows region [] T S)
    (hsteps : allocSize ≤ E.steps) (hinv : LocksInv [] T)
    (hload : items.foldlM (loadItem recorder m) T = .ok T₂) (hfits : Fits T₂.heap)
    (hcount : ∀ item ∈ items, ∀ token ∈ item.lockList, CountFits T₂.numLocks token) :
    ∃ S₂, items.foldlM (Shared.readItem E) S = .ok S₂ ∧ Follows region items T₂ S₂ := by
  have hrun := foldlM_invariant (fun items T₂ => LocksInv items T₂ ∧ (Fits T₂.heap →
      (∀ item ∈ items, ∀ token ∈ item.lockList, CountFits T₂.numLocks token) →
      ∃ S₂, items.foldlM (Shared.readItem E) S = .ok S₂ ∧ Follows region items T₂ S₂))
    ⟨hinv, fun _ _ => ⟨S, rfl, h⟩⟩ ?_ hload
  · exact hrun.2 hfits hcount
  · rintro done item T₁ T₂ ⟨hinv₁, hdone⟩ hone
    refine ⟨hinv₁.loadItem hone, fun hfits₂ hcount₂ => ?_⟩
    obtain ⟨⟨ns, hheap⟩, hnum⟩ := loadItem_recorder hone
    obtain ⟨S₁, hS₁, h₁⟩ := hdone (hheap ▸ hfits₂).left fun i hi token htoken => by
      rcases hnum with hnum | hnum
      · -- before the `L` line there is no list
        rw [(hinv₁.before (by omega)).2 i hi] at htoken
        cases htoken
      · exact hnum ▸ hcount₂ i (List.mem_append_left _ hi) token htoken
    obtain ⟨S₂, hS₂, h₂⟩ := h₁.readItem hsteps hinv₁ hone hfits₂
      (hcount₂ item (List.mem_append_right _ List.mem_cons_self))
    refine ⟨S₂, ?_, h₂⟩
    rw [List.foldlM_append, hS₁]
    exact foldlM_cons_eq_ok.mpr ⟨S₂, hS₂, rfl⟩

end Follows

/-- What the program holds when `init_tasks` returns. -/
structure Ready (region : Region) (items : List Item) (S : State) : Prop where
  laid : Laid region S.heap S.obtained
  released : S.released = []
  pointers : (S.obtained.map Allocation.ptr).Perm (S.tasks :: S.pointers)
  numLocks : S.numLocks = lockCount items
  count : 0 ≤ S.numLocks
  locks : ⟨S.locks, toULong (sizeofChronosMutexT * S.numLocks)⟩ ∈ S.obtained
  lists : ∀ t ∈ S.taskList, ∀ l ∈ t.locks, ∃ item ∈ items, ∃ token ∈ item.lockList,
    l ∈ lockIds S.numLocks token

/-- The start of `run_test`, which obtains all objects. -/
def obtainAll (E : Surroundings) (m : Machine) (items : List Item) (S : State) :
    Except Failure State := do
  let (S, barrier) ← allocate E sizeofPthreadBarrierT S
  initTasks E m items { S with barrier }

section ObtainAll

variable {E : Surroundings} {region : Region} {m : Machine} {items : List Item}
  {options : Options} {f : List Char} {T : Tester (List Nat)}

/-- The barrier and the domain masks are obtained first. -/
theorem Follows.start (hos : E.os.first = some region)
    (hsteps : allocSize ≤ E.steps) (mem : Memory)
    (hbegin : Taskset.beginTasks recorder m (Tester.start options []) = .ok T)
    (hfits : Fits T.heap) :
    ∃ S₁ barrier S₂, allocate E sizeofPthreadBarrierT (State.start mem) = .ok (S₁, barrier) ∧
      beginTasks E m { S₁ with barrier } = .ok S₂ ∧ Follows region [] T S₂ := by
  obtain ⟨requests, hserve, rfl⟩ := beginTasks_eq_ok.mp hbegin
  obtain ⟨rfl, hsmall⟩ := serve_recorder.mp hserve
  rw [List.forall_mem_singleton] at hsmall
  have hos' : E.os = ⟨some region, E.os.canExtend⟩ := by rw [← hos]
  obtain ⟨s₀, hready, hlaid₀⟩ := Laid.start region mem E.os.canExtend
  rw [← hos'] at hready
  obtain ⟨heap₁, barrier, hbarrier, -, hlaid₁⟩ := allocate_ok (n := sizeofPthreadBarrierT) hready
    hlaid₀ hsteps (by decide)
    (by decide : roomFor [sizeofPthreadBarrierT] + sizeofSallocT ≤ allocSize)
  obtain ⟨heap₂, domainMasks, hmasks, -, hlaid₂, hbytes⟩ := allocate_next
    (S := { State.start mem with
      heap := heap₁, obtained := [⟨barrier, sizeofPthreadBarrierT⟩], barrier })
    hlaid₁ hsteps (List.Perm.refl _) hsmall hfits
  exact ⟨_, barrier, _, hbarrier, bind_eq_ok.mpr ⟨_, hmasks, rfl⟩, hlaid₂, rfl, hbytes,
    List.Perm.refl _, rfl, nofun, rfl, nofun⟩

/-- **All objects of an accepted file are obtained**, if they fit into the first region
and no list of locks is too long for its `my_locks`. -/
theorem obtainAll_ok (h : Taskset.initTasks recorder m (some f) (Tester.start options []) = .ok T)
    (hlex : lex f = some items) (hfits : Fits T.heap)
    (hcount : ∀ item ∈ items, ∀ token ∈ item.lockList, CountFits (lockCount items) token)
    (hos : E.os.first = some region) (hsteps : allocSize ≤ E.steps) (mem : Memory) :
    ∃ S, obtainAll E m items (State.start mem) = .ok S ∧ Ready region items S := by
  obtain ⟨items', hlex', T₁, hbegin, T₂, hfold, hfinish⟩ := initTasks_eq_ok.mp h
  obtain rfl : items' = items := Option.some_inj.mp (hlex'.symm.trans hlex)
  obtain ⟨hpos, -, -, requests, hserve, rfl⟩ := finishTasks_eq_ok.mp hfinish
  obtain ⟨rfl, hsmall⟩ := serve_recorder.mp hserve
  rw [List.forall_mem_singleton] at hsmall
  have hfits₂ : Fits T₂.heap := hfits.left
  have hinv₁ : LocksInv [] T₁ := by
    obtain ⟨heap, -, rfl⟩ := beginTasks_eq_ok.mp hbegin
    exact locksInv_begun options heap
  have hrun := foldlM_invariant (fun items T => LocksInv items T ∧ ∃ ns, T.heap = T₁.heap ++ ns)
    ⟨hinv₁, [], (List.append_nil _).symm⟩ (fun done item T T' hT hone => by
      obtain ⟨ns, hns⟩ := hT.2
      obtain ⟨ns', hns'⟩ := (loadItem_recorder hone).1
      exact ⟨hT.1.loadItem hone, ns ++ ns', by rw [hns', hns, List.append_assoc]⟩) hfold
  obtain ⟨hinv₂, ns, hheap⟩ := hrun
  obtain ⟨S₁, barrier, S₂, hbarrier, hmasks, h₂⟩ :=
    Follows.start hos hsteps mem hbegin (hheap ▸ hfits₂).left
  obtain ⟨S₃, hS₃, h₃⟩ := h₂.readItems hsteps hinv₁ hfold hfits₂ (hinv₂.count ▸ hcount)
  rw [← h₃.tasks] at hsmall hfits
  obtain ⟨heap, tasks, htasks, -, hlaid, -⟩ := allocate_next h₃.laid hsteps h₃.bytes hsmall hfits
  have hpos₃ : 0 ≤ S₃.numLocks := h₃.numLocks ▸ hpos
  refine ⟨{ S₃ with
      heap, tasks, obtained := ⟨tasks, sizeofPointer * S₃.taskList.length⟩ :: S₃.obtained },
    ?_, hlaid, h₃.released, h₃.pointers.cons tasks, h₃.numLocks.trans hinv₂.count, hpos₃,
    List.mem_cons_of_mem _ (h₃.locks hpos₃), h₃.lists⟩
  refine bind_eq_ok.mpr ⟨_, hbarrier, bind_eq_ok.mpr ⟨_, hmasks, bind_eq_ok.mpr ⟨_, hS₃, ?_⟩⟩⟩
  exact bind_eq_ok.mpr ⟨_, htasks, rfl⟩

end ObtainAll

end Chronos.Shared
