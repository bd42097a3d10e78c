import Chronos.Shared.Obtain

/-!
# Giving the objects back

`cleanup_test_locks`, `cleanup_tasks` and the last line of `run_test` release the
pointers in an order of their own. As long as nothing was stored over a header, the
heap is then the one `init_salloc` has made. What can be stored over a header is a
list of locks that is longer than its `my_locks`, or, while the tests run, the mutex
of a lock that does not exist: nothing compares a list with the number of locks.
-/

namespace Chronos.Shared

open Lib Salloc Taskset

/-! ## Releasing -/

section Cleanup

variable {E : Surroundings} {S : State} {s : Heap}

theorem release_ok {ptr : Nat} (h : S.heap.sfree E.steps ptr = .ok s) :
    release E ptr S = .ok { S with heap := s, released := ptr :: S.released } := by
  unfold release
  rw [h]

theorem cleanupTask_ok {t : TaskObject} (h : S.heap.sfreeAll E.steps t.pointers = .ok s) :
    cleanupTask E S t = .ok { S with heap := s, released := t.pointers.reverse ++ S.released } := by
  unfold cleanupTask
  unfold TaskObject.pointers at h ⊢
  obtain ⟨s₁, hlocks, htask⟩ := Heap.sfreeAll_append.mp h
  obtain ⟨s₂, htask, hs⟩ := Heap.sfreeAll_cons.mp htask
  cases hs
  by_cases hnull : t.myLocks = 0
  · simp only [hnull, ne_eq, not_true_eq_false, if_false] at hlocks ⊢
    cases hlocks
    exact release_ok htask
  · simp only [ne_eq, hnull, not_false_eq_true, if_true] at hlocks ⊢
    obtain ⟨s₃, hlocks, hs⟩ := Heap.sfreeAll_cons.mp hlocks
    cases hs
    exact bind_eq_ok.mpr ⟨_, release_ok hlocks, release_ok htask⟩

/-- The loop of `cleanup_tasks`. -/
theorem cleanupTask_foldlM {ts : List TaskObject}
    (h : S.heap.sfreeAll E.steps (ts.flatMap TaskObject.pointers) = .ok s) :
    ts.foldlM (cleanupTask E) S = .ok { S with
      heap := s
      released := (ts.flatMap TaskObject.pointers).reverse ++ S.released } := by
  induction ts generalizing S with
  | nil =>
    cases h
    rfl
  | cons t ts ih =>
    rw [List.flatMap_cons] at h ⊢
    obtain ⟨s₁, hone, hrest⟩ := Heap.sfreeAll_append.mp h
    rw [foldlM_cons_eq_ok]
    refine ⟨_, cleanupTask_ok hone, ?_⟩
    rw [ih hrest, List.reverse_append, List.append_assoc]

/-- The pointers in the order in which they are released. -/
def State.toRelease (S : State) : List Nat :=
  S.locks :: S.domainMasks :: (S.taskList.flatMap TaskObject.pointers ++ [S.tasks, S.barrier])

/-- The end of `run_test`, which gives all objects back. -/
def giveBackAll (E : Surroundings) (S : State) : Except Failure State := do
  let S ← cleanupTestLocks E S
  let S ← cleanupTasks E S
  release E S.barrier S

theorem giveBackAll_ok (h : S.heap.sfreeAll E.steps S.toRelease = .ok s) :
    ∃ S', giveBackAll E S = .ok S' ∧ S'.heap = s ∧ S'.obtained = S.obtained ∧
      S'.released = S.toRelease.reverse ++ S.released := by
  obtain ⟨s₁, hlocks, h⟩ := Heap.sfreeAll_cons.mp h
  obtain ⟨s₂, hmasks, h⟩ := Heap.sfreeAll_cons.mp h
  obtain ⟨s₃, hlist, h⟩ := Heap.sfreeAll_append.mp h
  obtain ⟨s₄, htasks, h⟩ := Heap.sfreeAll_cons.mp h
  obtain ⟨s₅, hbarrier, h⟩ := Heap.sfreeAll_cons.mp h
  cases h
  refine ⟨_, bind_eq_ok.mpr ⟨_, bind_eq_ok.mpr ⟨_, release_ok hlocks, rfl⟩,
    bind_eq_ok.mpr ⟨_, bind_eq_ok.mpr ⟨_, release_ok hmasks, bind_eq_ok.mpr
      ⟨_, cleanupTask_foldlM hlist, bind_eq_ok.mpr ⟨_, release_ok htasks, rfl⟩⟩⟩,
      release_ok hbarrier⟩⟩, rfl, rfl, ?_⟩
  simp [State.toRelease]

end Cleanup

/-! ## The tests -/

section Tests

variable {region : Region} {s : Heap} {objects : List Allocation} {a : Allocation}
  {items : List Item} {S : State} {locking : Nat}

/-- No object reaches the end of the address space. -/
theorem Laid.lt (h : Laid region s objects) (ha : a ∈ objects) {x : Nat} (hlo : a.ptr ≤ x)
    (hhi : x < a.ptr + a.bytes) : x < 2 ^ 64 := by
  obtain ⟨bs, hheld⟩ := h.held
  obtain ⟨b, hb, -, hx⟩ := hheld.inPayload ha hlo hhi
  have := (hheld.wellFormed.block_bounds (mem_used.mp hb).1).2
  have := hheld.wellFormed.space
  omega

/-- The locks of a list are bytes of the object of the locks. -/
theorem Ready.mutex_inside (h : Ready region items S) {l : Int} (hl : 0 ≤ l ∧ l < lockCount items)
    {x : Nat} (hlo : lockAddr S.locks l ≤ x) (hhi : x < lockAddr S.locks l + sizeofChronosMutexT) :
    ∃ a ∈ S.obtained, a.ptr ≤ x ∧ x < a.ptr + a.bytes := by
  have hlt := lockCount_lt items
  have hbytes : toULong (sizeofChronosMutexT * S.numLocks) = 16 * (lockCount items).toNat := by
    rw [h.numLocks]
    unfold toULong sizeofChronosMutexT
    omega
  have hlocks := h.locks
  rw [hbytes] at hlocks
  have hend := h.laid.lt (x := S.locks + 16 * l.toNat) hlocks (by dsimp only; omega)
    (by dsimp only; omega)
  have haddr : lockAddr S.locks l = S.locks + 16 * l.toNat := by
    unfold lockAddr toULong sizeofChronosMutexT
    omega
  rw [haddr] at hlo hhi
  have hsize : sizeofChronosMutexT = 16 := rfl
  exact ⟨_, hlocks, by dsimp only; omega, by dsimp only; omega⟩

/-- **The tests store in objects only**, if there is no locking or all locks exist. -/
theorem Ready.runTests (h : Ready region items S)
    (hexist : locking ≠ 0 → ∀ item ∈ items, ∀ token ∈ item.lockList,
      ∀ l ∈ lockIds (lockCount items) token, 0 ≤ l ∧ l < lockCount items)
    (tests : Tests locking) :
    ∃ heap, runTests tests S = .ok { S with heap } ∧ Laid region heap S.obtained := by
  have hin : ∀ p ∈ tests.stores S, ∃ a ∈ S.obtained, a.ptr ≤ p.1 ∧ p.1 < a.ptr + a.bytes := by
    intro p hp
    rcases tests.inside S p hp with hobject | ⟨hon, t, ht, l, hl, hlo, hhi⟩
    · exact hobject
    · obtain ⟨item, hitem, token, htoken, hmem⟩ := h.lists t ht l hl
      rw [h.numLocks] at hmem
      exact h.mutex_inside (hexist hon item hitem token htoken l hmem) hlo hhi
  obtain ⟨heap, hheap, hlaid⟩ := h.laid.storeBytes hin
  exact ⟨heap, bind_eq_ok.mpr ⟨heap, hheap, rfl⟩, hlaid⟩

end Tests

/-! ## The whole -/

/-- `run_test` releases what it has obtained, each object once, and leaves the heap as
`init_salloc` has made it. -/
def GivesBack {locking : Nat} (E : Surroundings) (region : Region) (m : Machine) (items : List Item)
    (tests : Tests locking) (mem : Memory) : Prop :=
  ∃ S, runTest E m items tests (State.start mem) = .ok S ∧
    (S.obtained.map Allocation.ptr).Nodup ∧
    S.released.Perm (S.obtained.map Allocation.ptr) ∧ S.heap.Initial region

/-- Whether there is locking, once the number of locks is known. -/
def lockingOf (options : Options) (items : List Item) : Nat :=
  (Chronos.initializeTestLocks (lockCount items) options).2.locking

/-- The list says `all`, or it has no more numbers than its `my_locks` has room for and,
if there is locking, all of them are locks. -/
def ListStays (locking : Nat) (n : Int) (token : List Char) : Prop :=
  saysAll token ∨
    (sizeofPointer * (listDigits [] token).length ≤ alignRequest (toULong (sizeofPointer * n)) ∧
      (locking ≠ 0 → ∀ digits ∈ listDigits [] token, 0 ≤ atoi digits ∧ atoi digits < n))

instance (locking : Nat) (n : Int) (token : List Char) : Decidable (ListStays locking n token) :=
  inferInstanceAs (Decidable (_ ∨ _))

section

variable {locking : Nat} {n : Int} {token : List Char}

theorem ListStays.countFits (h : ListStays locking n token) (hn : n < 2 ^ 31) :
    CountFits n token := by
  unfold CountFits lockIds
  by_cases hall : saysAll token
  · rw [if_pos hall, List.length_map, List.length_range]
    by_cases hpos : 0 ≤ n
    · have hbytes : toULong (sizeofPointer * n) = 8 * n.toNat := by
        unfold toULong sizeofPointer
        omega
      rw [hbytes]
      exact le_alignRequest (no_wrap (by omega : 8 * n.toNat < 2 ^ 63))
    · rw [Int.toNat_of_nonpos (by omega)]
      exact Nat.zero_le _
  · rw [if_neg hall, List.length_map]
    exact (h.resolve_left hall).1

theorem ListStays.exist (h : ListStays locking n token) (hon : locking ≠ 0) :
    ∀ l ∈ lockIds n token, 0 ≤ l ∧ l < n := by
  unfold lockIds
  by_cases hall : saysAll token
  · rw [if_pos hall, List.forall_mem_map]
    intro i hi
    have := List.mem_range.mp hi
    have hcast : Int.ofNat i = (i : Int) := rfl
    omega
  · rw [if_neg hall, List.forall_mem_map]
    exact (h.resolve_left hall).2 hon

end

section

variable {m : Machine} {options : Options} {f : List Char} {T : Tester (List Nat)}
  {items : List Item}

/-- **`run_test` gives all shared memory back** for an accepted file whose requests fit
into the first region, if every list of locks in it stays in its place. -/
theorem givesBack_of_lists
    (h : Taskset.initTasks recorder m (some f) (Tester.start options []) = .ok T)
    (hlex : lex f = some items) (hfits : Fits T.heap)
    (hlists : ∀ item ∈ items, ∀ token ∈ item.lockList,
      ListStays (lockingOf options items) (lockCount items) token)
    (E : Surroundings) (region : Region) (hos : E.os.first = some region)
    (hsteps : allocSize ≤ E.steps) (mem : Memory) (tests : Tests (lockingOf options items)) :
    GivesBack E region m items tests mem := by
  obtain ⟨S, hobtain, hready⟩ := obtainAll_ok h hlex hfits
    (fun item hitem token htoken =>
      (hlists item hitem token htoken).countFits (lockCount_lt items)) hos hsteps mem
  obtain ⟨heap, htests, hlaid⟩ := hready.runTests
    (fun hon item hitem token htoken => (hlists item hitem token htoken).exist hon) tests
  obtain ⟨bs, hheld⟩ := hlaid.held
  have hperm : S.toRelease.Perm (S.obtained.map Allocation.ptr) := by
    refine List.Perm.symm (hready.pointers.trans ?_)
    rw [State.pointers, if_pos hready.count]
    refine (List.Perm.swap _ _ _).trans (List.Perm.cons _ ?_)
    exact (List.Perm.swap _ _ _).trans (List.perm_middle.symm.cons _)
  obtain ⟨us, rest, hcarved⟩ := hlaid.carved
  obtain ⟨s, hs, hinit⟩ := hheld.sfreeAll hsteps hlaid.head hcarved.total hperm
  obtain ⟨S', hS', rfl, hobtained, hreleased⟩ := giveBackAll_ok (S := { S with heap }) hs
  obtain ⟨⟨S₀, barrier⟩, hbarrier, hinitTasks⟩ := bind_eq_ok.mp hobtain
  refine ⟨S', bind_eq_ok.mpr ⟨_, hbarrier, bind_eq_ok.mpr ⟨S, hinitTasks,
    bind_eq_ok.mpr ⟨_, htests, hS'⟩⟩⟩, ?_, ?_, hinit⟩
  · rw [hobtained]
    exact hheld.nodup
  · rw [hobtained, hreleased]
    change (S.toRelease.reverse ++ S.released).Perm (S.obtained.map Allocation.ptr)
    rw [hready.released, List.append_nil]
    exact (List.reverse_perm _).trans hperm

end

/-! ## A list that is too long -/

/-- A first region well above 4 GB. -/
def sampleRegion : Region := ⟨0x7f0000000000, by decide, by decide, by decide⟩

/-- The system cannot extend the region, and objects are left as they are found. -/
def sampleSurroundings : Surroundings where
  os := ⟨some sampleRegion, false⟩
  steps := allocSize
  contents _ := []

/-- Tests that store nothing. -/
def noTests (locking : Nat) : Tests locking := ⟨fun _ => [], nofun⟩

/-- A task of one processor and half a second, as read by `sampleMachine`. -/
def sampleTask (group leader : Nat) (myLocks : List Int) : Task :=
  { freshTask with
    cpuMask := 1
    threadGroup := group
    groupLeader := leader
    myLocks := myLocks
    period := 500000
    periodTs := ⟨0, 500000000⟩
    execTime := 150000
    utility := 17
    taskWss := 0 }

/-- What reading such tasks leaves, the newest first. -/
def sampleTester (numLocks : Int) (taskList : List Task) (requests : List Nat) :
    Tester (List Nat) where
  options := sampleOptions
  heap := requests
  domainMasks := [1, 0, 0, 0]
  numLocks := numLocks
  taskList := taskList
  seenGroup := false
  warnings := []

/-- Two locks, a task that uses both and one that uses none. -/
def twoTasks : List Char :=
  "L 2\nT 0 1 0 500000 150000 17 0,1\nT 0 2 0 500000 150000 17\n".toList

theorem givesBack_twoTasks : ∃ items, lex twoTasks = some items ∧
    GivesBack sampleSurroundings sampleRegion sampleMachine items
      (noTests (lockingOf sampleOptions items)) .empty := by
  have h : Taskset.initTasks recorder sampleMachine (some twoTasks)
      (Tester.start sampleOptions []) = .ok (sampleTester 2
        [sampleTask 2 1 [], sampleTask 1 0 [0, 1]] [32, 32, 224, 16, 224, 16]) := by
    decide +kernel
  have hlex : lex twoTasks = some ((lex twoTasks).getD []) := by decide +kernel
  exact ⟨_, hlex, givesBack_of_lists h hlex (by decide) (by decide +kernel) sampleSurroundings
    sampleRegion rfl (Nat.le_refl _) .empty (noTests _)⟩

/-- One lock, and a task that names it three times. -/
def threeTimes : List Char := "L 1\nT 0 1 0 500000 150000 17 0,0,0\n".toList

/-- **A list that is too long damages the heap.** The `my_locks` of one lock has room for
two pointers, and the third is stored over the size of the free block behind it. So is
the size of the block that is left when everything has been released. -/
theorem not_givesBack_threeTimes : ∃ items T, lex threeTimes = some items ∧
    Taskset.initTasks recorder sampleMachine (some threeTimes) (Tester.start sampleOptions []) =
      .ok T ∧ Fits T.heap ∧
    ¬GivesBack sampleSurroundings sampleRegion sampleMachine items
      (noTests (lockingOf sampleOptions items)) .empty := by
  have h : Taskset.initTasks recorder sampleMachine (some threeTimes)
      (Tester.start sampleOptions []) =
      .ok (sampleTester 1 [sampleTask 1 0 [0, 0, 0]] [32, 16, 224, 8, 8]) := by
    decide +kernel
  have hlex : lex threeTimes = some ((lex threeTimes).getD []) := by decide +kernel
  have hsize : ((runTest sampleSurroundings sampleMachine ((lex threeTimes).getD [])
      (noTests LOCKING) (State.start .empty)).toOption.bind
        fun S => (S.heap.size S.heap.head).toOption) = some 139637976728064 := by
    decide +kernel
  refine ⟨_, _, hlex, h, by decide, ?_⟩
  rintro ⟨S, hS, -, -, hinitial⟩
  have hlocking : lockingOf sampleOptions ((lex threeTimes).getD []) = LOCKING := by decide +kernel
  rw [hlocking] at hS
  rw [hS] at hsize
  have hsize' : (S.heap.size S.heap.head).toOption = some 139637976728064 := hsize
  rw [hinitial.size, hinitial.totalSize] at hsize'
  exact absurd hsize' (by decide)

end Chronos.Shared
