import Chronos.Taskset.Leaders

/-!
# The working sets of groups

`new_task` leaves -1 in `group_wss`, and only a `G` line writes anything else there.
The 128k that are documented as the default of a group are nowhere in the code, so a
group without a `G` line allocates its array with a size of -1.
-/

namespace Chronos.Taskset

open Lib

/-! ## Workloads -/

abbrev DEFAULT_MIN_TASK_WSS : Nat := 1024 * 64
abbrev DEFAULT_MAX_TASK_WSS : Nat := 1024 * 1024 * 10
abbrev DEFAULT_MIN_GROUP_WSS : Nat := 1024 * 64
abbrev DEFAULT_MAX_GROUP_WSS : Nat := 1024 * 1024 * 10

/-- The check in `get_workload_struct`. -/
def workloadWssValidBounds (w : Workload) : Bool :=
  if w.capabilities &&& WORKLOAD_CAP_TASK_WSS ≠ 0 ∧ w.minTaskWss < DEFAULT_MIN_TASK_WSS then false
  else if w.capabilities &&& WORKLOAD_CAP_TASK_WSS ≠ 0 ∧ DEFAULT_MAX_TASK_WSS < w.maxTaskWss then
    false
  else if w.capabilities &&& WORKLOAD_CAP_GROUP_WSS ≠ 0 ∧ w.minGroupWss < DEFAULT_MIN_GROUP_WSS then
    false
  else if w.capabilities &&& WORKLOAD_CAP_GROUP_WSS ≠ 0 ∧ DEFAULT_MAX_GROUP_WSS < w.maxGroupWss then
    false
  else true

/-- `array_walk`, `array_backwards` and `array_random` have the same bounds. -/
def arrayWalkWorkload : Workload where
  capabilities := WORKLOAD_CAP_GROUP_WSS
  minTaskWss := 0
  maxTaskWss := 0
  minGroupWss := DEFAULT_MIN_GROUP_WSS
  maxGroupWss := DEFAULT_MAX_GROUP_WSS

/-! ## The array of a group -/

abbrev sizeofInt : Nat := 4

/-- `num_elements` in `array_walk_init_group`; the division is unsigned. -/
def numElements (groupWss : Int) : Nat := toULong groupWss / sizeofInt

/-- What is asked of `malloc` for the array, as the addition is before it wraps. -/
def arraySize (groupWss : Int) : Nat := sizeofInt * numElements groupWss + 64

/-- The documented default of 128k. -/
abbrev documentedDefault : Int := 1024 * 128

namespace Item

/-- The thread group of a task line. -/
def taskGroup : Item → Option Nat
  | .task w _ => some (toUInt w.threadGroup.value)
  | _ => none

/-- The thread group of a group line. -/
def sizedGroup : Item → Option Nat
  | .group g _ => some (toUInt g.value)
  | _ => none

end Item

/-- The size that the lines leave for a group. -/
def wssOf (m : Machine) (g : Nat) (items : List Item) : Int :=
  items.foldl (fun wss item =>
    match item with
    | .group g' w => if toUInt g'.value = g then groupWss m w else wss
    | _ => wss) (-1)

/-- **The working set of a leader is in bounds**: it is the default if no line gives a
size to the group, and its array has elements and a size that does not wrap. -/
structure Sized (m : Machine) (items : List Item) (t : Task) : Prop where
  lower : m.workload.minGroupWss ≤ t.groupWss
  upper : t.groupWss ≤ m.workload.maxGroupWss
  default : (∀ item ∈ items, item.sizedGroup ≠ some t.threadGroup) →
    t.groupWss = documentedDefault
  elements : 0 < numElements t.groupWss
  fits : arraySize t.groupWss < 2 ^ 64

/-- The working sets of all leaders are in bounds. -/
def GroupsSized {σ : Type} (m : Machine) (items : List Item) (T : Tester σ) : Prop :=
  ∀ (i : Nat) (t : Task), T.taskList.reverse[i]? = some t → t.groupLeader = i → Sized m items t

/-- Every group with a task line has a group line, in bounds that are in order. -/
def EveryGroupHasLine (m : Machine) (items : List Item) : Prop :=
  m.workload.minGroupWss ≤ m.workload.maxGroupWss ∧
    ∀ item ∈ items, ∀ g ∈ item.taskGroup, ∃ item' ∈ items, item'.sizedGroup = some g

section Sizes

variable {m : Machine} {g : Nat} {items : List Item} {item : Item}

@[simp] theorem wssOf_nil : wssOf m g [] = -1 := rfl

theorem wssOf_append : wssOf m g (items ++ [item]) =
    match item with
    | .group g' w => if toUInt g'.value = g then groupWss m w else wssOf m g items
    | _ => wssOf m g items := by
  simp only [wssOf, List.foldl_append, List.foldl_cons, List.foldl_nil]

/-- A group has the size of a line for it, if there is one. -/
theorem wssOf_cases (m : Machine) (g : Nat) (items : List Item) :
    (wssOf m g items = -1 ∧ ∀ item ∈ items, item.sizedGroup ≠ some g) ∨
      ((∃ w, wssOf m g items = groupWss m w) ∧ ∃ item ∈ items, item.sizedGroup = some g) := by
  induction items using List.reverseRecOn with
  | nil => exact .inl ⟨rfl, nofun⟩
  | append_singleton items item ih =>
    rw [wssOf_append]
    have hother (hitem : item.sizedGroup ≠ some g) :
        (wssOf m g items = -1 ∧ ∀ i ∈ items ++ [item], i.sizedGroup ≠ some g) ∨
          ((∃ w, wssOf m g items = groupWss m w) ∧
            ∃ i ∈ items ++ [item], i.sizedGroup = some g) := by
      rcases ih with ⟨hwss, hnone⟩ | ⟨hwss, i, hi, hig⟩
      · refine .inl ⟨hwss, ?_⟩
        exact List.forall_mem_append.mpr ⟨hnone, List.forall_mem_singleton.mpr hitem⟩
      · exact .inr ⟨hwss, i, List.mem_append_left _ hi, hig⟩
    cases item with
    | group g' w =>
      by_cases hg : toUInt g'.value = g
      · simp only [hg, if_true]
        exact .inr ⟨⟨w, rfl⟩, .group g' w, by simp, congrArg some hg⟩
      · simp only [hg, if_false]
        exact hother fun heq => hg (Option.some.inj heq)
    | comment => exact hother nofun
    | locks w => exact hother nofun
    | task w optional => exact hother nofun

theorem clampWss_bounds {min max : Nat} (h : min ≤ max) (wss : Int) :
    min ≤ clampWss true min max wss ∧ clampWss true min max wss ≤ max := by
  unfold clampWss
  split
  · contradiction
  · split
    · omega
    · split <;> omega

theorem toULong_of_nonneg {x : Int} (h : 0 ≤ x) (hlt : x < 2 ^ 64) : (toULong x : Int) = x := by
  unfold toULong
  omega

/-- **When a working set is in bounds**: the group has a line. -/
theorem sized_iff {t : Task} (hcap : m.workload.capabilities &&& WORKLOAD_CAP_GROUP_WSS ≠ 0)
    (hvalid : workloadWssValidBounds m.workload = true)
    (ht : t.groupWss = wssOf m t.threadGroup items) :
    Sized m items t ↔ m.workload.minGroupWss ≤ m.workload.maxGroupWss ∧
      ∃ item ∈ items, item.sizedGroup = some t.threadGroup := by
  rcases wssOf_cases m t.threadGroup items with ⟨hwss, hnone⟩ | ⟨⟨w, hwss⟩, hline⟩
  · have hneg : t.groupWss = -1 := ht.trans hwss
    constructor
    · intro h
      have hlower := h.lower
      omega
    · rintro ⟨-, item, hitem, hg⟩
      exact absurd hg (hnone item hitem)
  · constructor
    · intro h
      have hle := h.lower.trans h.upper
      exact ⟨by omega, hline⟩
    · rintro ⟨hle, item, hitem, hg⟩
      have hbounds := clampWss_bounds hle w.value
      have hgroup : t.groupWss =
          clampWss true m.workload.minGroupWss m.workload.maxGroupWss w.value := by
        rw [ht, hwss, groupWss, decide_eq_true hcap]
      rw [← hgroup] at hbounds
      have hvalid' : 65536 ≤ m.workload.minGroupWss ∧ m.workload.maxGroupWss ≤ 10485760 := by
        unfold workloadWssValidBounds at hvalid
        grind
      have hlong : (toULong t.groupWss : Int) = t.groupWss :=
        toULong_of_nonneg (by omega) (by omega)
      refine ⟨hbounds.1, hbounds.2, fun hnone => absurd hg (hnone item hitem), ?_, ?_⟩
      · simp only [numElements, sizeofInt]
        omega
      · simp only [arraySize, numElements, sizeofInt]
        omega

end Sizes

/-! ## Sizes as they are stored -/

/-- A group line sets the size of one leader. -/
theorem setGroupWss_eq_some {g : Nat} {wss : Int} {ts ts' : List Task}
    (h : setGroupWss g wss ts = some ts') :
    ∃ (k : Nat) (u : Task), ts.reverse[k]? = some u ∧ u.groupLeader = k ∧ u.threadGroup = g ∧
      ts'.reverse = ts.reverse.set k { u with groupWss := wss } := by
  induction ts generalizing ts' with
  | nil => cases h
  | cons t ts ih =>
    unfold setGroupWss at h
    split at h
    · next hlead =>
      cases h
      refine ⟨ts.length, t, getElem?_reverse_length, hlead.1, hlead.2, ?_⟩
      simp
    · obtain ⟨us, hus, rfl⟩ := Option.map_eq_some_iff.mp h
      obtain ⟨k, u, hget, hlead, hgroup, hset⟩ := ih hus
      have hk : k < ts.length := by simpa using (List.getElem?_eq_some_iff.mp hget).1
      refine ⟨k, u, by rw [getElem?_reverse_cons hk, hget], hlead, hgroup, ?_⟩
      rw [List.reverse_cons, hset, List.reverse_cons, List.set_append_left _ _ (by simpa using hk)]

section Loading

variable {σ : Type} {A : Allocator σ} {m : Machine} {T T' : Tester σ} {items : List Item}

/-- What holds after any number of entries: no size is given before the last task, and
each leader has the size that the lines give to its group. -/
structure SizesInv (m : Machine) (items : List Item) (T : Tester σ) : Prop where
  led : LedByFirst T.taskList
  groups : ∀ g, (∃ t ∈ T.taskList, t.threadGroup = g) ↔ ∃ item ∈ items, item.taskGroup = some g
  unsized : T.seenGroup = false → ∀ item ∈ items, item.sizedGroup = none
  size : ∀ (i : Nat) (t : Task), T.taskList.reverse[i]? = some t → t.groupLeader = i →
    t.groupWss = wssOf m t.threadGroup items

/-- An entry that is neither a task nor a group leaves the sizes alone. -/
theorem SizesInv.other {item : Item} (h : SizesInv m items T) (htask : item.taskGroup = none)
    (hgroup : item.sizedGroup = none) (hlist : T'.taskList = T.taskList)
    (hseen : T'.seenGroup = T.seenGroup) : SizesInv m (items ++ [item]) T' where
  led := hlist ▸ h.led
  groups g := by
    rw [hlist, h.groups]
    simp [or_and_right, exists_or, htask]
  unsized hfalse := by
    have hold := h.unsized (hseen ▸ hfalse)
    simpa [or_imp, forall_and, hgroup] using hold
  size i t ht hlead := by
    rw [hlist] at ht
    rw [h.size i t ht hlead, wssOf_append]
    cases item <;> first | rfl | cases hgroup

theorem SizesInv.task {w : TaskFields} {optional : Option (Word (List Char) × Option (Word Int))}
    (h : SizesInv m items T) (hload : loadItem A m T (.task w optional) = .ok T') :
    SizesInv m (items ++ [.task w optional]) T' := by
  have hled := h.led.loadItem hload
  obtain ⟨-, hseen, htask⟩ := loadItem_task_eq_ok.mp hload
  obtain ⟨-, -, mask, masks, heap, -, -, -, -, rfl⟩ := loadTask_eq_ok.mp htask
  refine ⟨hled, fun g => ?_, fun _ => ?_, fun i t ht hlead => ?_⟩
  · have hold := h.groups g
    have hgroup : (taskOf m T.numLocks w mask optional).threadGroup = toUInt w.threadGroup.value :=
      taskOf_field Task.threadGroup (fun _ _ _ => rfl) T.numLocks w mask optional
    simp only [addTask, List.mem_cons, List.mem_append, List.not_mem_nil, or_false, or_and_right,
      exists_or, exists_eq_left, threadGroup_initGroupLeader, hgroup, hold, Item.taskGroup,
      Option.some.injEq]
    exact or_comm
  · have hold := h.unsized hseen
    simpa [or_imp, forall_and, Item.sizedGroup] using hold
  · rw [wssOf_append]
    simp only [addTask] at ht
    by_cases hi : i < T.taskList.length
    · rw [getElem?_reverse_cons hi] at ht
      exact h.size i t ht hlead
    · -- the new task has no size, and no line has given one to its group
      have hlast : i = T.taskList.length := by
        have hlt := (List.getElem?_eq_some_iff.mp ht).1
        rw [List.length_reverse, List.length_cons] at hlt
        omega
      rw [hlast, getElem?_reverse_length] at ht
      cases ht
      rw [initGroupLeader_field Task.groupWss (fun _ _ => rfl),
        taskOf_field Task.groupWss fun _ _ _ => rfl]
      rcases wssOf_cases m _ items with ⟨hwss, -⟩ | ⟨-, item, hitem, hg⟩
      · exact hwss.symm
      · rw [h.unsized hseen item hitem] at hg
        cases hg

theorem SizesInv.group {g w : Word Int} (h : SizesInv m items T)
    (hload : loadItem A m T (.group g w) = .ok T') : SizesInv m (items ++ [.group g w]) T' := by
  have hled := h.led.loadItem hload
  obtain ⟨taskList, hset, rfl⟩ := loadItem_group_eq_ok.mp hload
  refine ⟨hled, fun g' => ?_, nofun, fun i t ht hlead => ?_⟩
  · have hmap := map_setGroupWss Task.threadGroup (fun _ _ => rfl) hset
    have hmem (ts : List Task) : (∃ t ∈ ts, t.threadGroup = g') ↔ g' ∈ ts.map Task.threadGroup := by
      simp
    rw [hmem, hmap, ← hmem, h.groups]
    simp [or_and_right, exists_or, Item.taskGroup]
  · obtain ⟨k, u, hu, hulead, hugroup, hrev⟩ := setGroupWss_eq_some hset
    rw [hrev, List.getElem?_set] at ht
    rw [wssOf_append]
    split at ht
    · next hk =>
      split at ht
      · cases ht
        simp [hugroup]
      · cases ht
    · next hk =>
      have hne : toUInt g.value ≠ t.threadGroup := by
        -- a group has one leader
        intro heq
        have hufirst := h.led u (List.mem_reverse.mp (List.mem_of_getElem? hu))
        have htfirst := h.led t (List.mem_reverse.mp (List.mem_of_getElem? ht))
        rw [hugroup, heq] at hufirst
        have := hufirst.eq htfirst
        omega
      simp only [hne, if_false]
      exact h.size i t ht hlead

theorem SizesInv.loadItem {item : Item} (h : SizesInv m items T)
    (hload : loadItem A m T item = .ok T') : SizesInv m (items ++ [item]) T' := by
  cases item with
  | comment =>
    cases hload
    exact h.other rfl rfl rfl rfl
  | locks w =>
    obtain ⟨-, -, heap, -, rfl⟩ := loadItem_locks_eq_ok.mp hload
    exact h.other rfl rfl rfl rfl
  | task w optional => exact h.task hload
  | group g w => exact h.group hload

theorem sizesInv_begun (options : Options) (heap : σ) : SizesInv m [] (begun m options heap) :=
  ⟨nofun, by simp [begun, Tester.start], fun _ => nofun, by simp [begun, Tester.start]⟩

/-- **The working sets of an accepted file are in bounds** exactly when every group
has a line. -/
theorem groupsSized_iff {options : Options} {heap : σ} {f : List Char}
    (hcap : m.workload.capabilities &&& WORKLOAD_CAP_GROUP_WSS ≠ 0)
    (hvalid : workloadWssValidBounds m.workload = true)
    (h : initTasks A m (some f) (Tester.start options heap) = .ok T) :
    ∃ items ∈ lex f, (GroupsSized m items T ↔ EveryGroupHasLine m items) := by
  obtain ⟨items, T₀, heap, hlex, hinv, -, hne, rfl⟩ := initTasks_invariant (SizesInv m) h
    (sizesInv_begun options) fun _ _ _ _ hP hload => hP.loadItem hload
  refine ⟨items, hlex, ?_⟩
  have hleader {t : Task} (ht : t ∈ T₀.taskList) := hinv.led.leader ht
  have hsized {i : Nat} {t : Task} (ht : T₀.taskList.reverse[i]? = some t)
      (hlead : t.groupLeader = i) := sized_iff hcap hvalid (hinv.size i t ht hlead)
  constructor
  · intro hall
    obtain ⟨t₀, ht₀⟩ := List.exists_mem_of_ne_nil _ hne
    refine ⟨?_, ?_⟩
    · obtain ⟨u, -, hu, -, hlead⟩ := hleader ht₀
      exact ((hsized hu hlead).mp (hall _ u hu hlead)).1
    · intro item hitem g hg
      obtain ⟨t, ht, rfl⟩ := (hinv.groups g).mpr ⟨item, hitem, hg⟩
      obtain ⟨u, -, hu, hgroup, hlead⟩ := hleader ht
      rw [← hgroup]
      exact ((hsized hu hlead).mp (hall _ u hu hlead)).2
  · rintro ⟨hle, hall⟩ i t ht hlead
    refine (hsized ht hlead).mpr ⟨hle, ?_⟩
    have hmem := List.mem_reverse.mp (List.mem_of_getElem? ht)
    obtain ⟨item, hitem, hg⟩ := (hinv.groups t.threadGroup).mp ⟨t, hmem, rfl⟩
    exact hall item hitem _ hg

end Loading

/-! ## A group without a line -/

/-- Four processors and the workload `array_walk`. -/
def arrayWalkMachine : Machine := { sampleMachine with workload := arrayWalkWorkload }

/-- Two groups, of which only the first has a line. -/
def oneSizedGroup : List Char :=
  "L 0\nT 0 1 0 500000 150000 17\nT 0 2 0 500000 150000 17\nG 1 200000\n".toList

/-- What reading it leaves, with locking turned off. -/
def oneSizedGroupTester : Tester Unit where
  options := { sampleOptions with locking := NO_LOCKING }
  heap := ()
  domainMasks := [1, 0, 0, 0]
  numLocks := 0
  taskList := [threeTasksTask 1 2 1, { threeTasksTask 1 1 0 with groupWss := 200000 }]
  seenGroup := true
  warnings :=
    ["Locking enabled, but the taskset file doesn't specify locks. Turning locking off."]

theorem initTasks_oneSizedGroup : initTasks sampleAllocator arrayWalkMachine (some oneSizedGroup)
    (Tester.start sampleOptions ()) = .ok oneSizedGroupTester := by
  decide +kernel

/-- The same with a line for each group. -/
def twoSizedGroups : List Char :=
  "L 0\nT 0 1 0 500000 150000 17\nT 0 2 0 500000 150000 17\nG 1 200000\nG 2 300000\n".toList

/-- What reading it leaves. -/
def twoSizedGroupsTester : Tester Unit :=
  { oneSizedGroupTester with
    taskList := [{ threeTasksTask 1 2 1 with groupWss := 300000 },
      { threeTasksTask 1 1 0 with groupWss := 200000 }] }

theorem initTasks_twoSizedGroups : initTasks sampleAllocator arrayWalkMachine (some twoSizedGroups)
    (Tester.start sampleOptions ()) = .ok twoSizedGroupsTester := by
  decide +kernel

/-- With one line the working sets are not in bounds, with two they are. -/
theorem groupsSized_iff_oneSizedGroup :
    (∃ items ∈ lex oneSizedGroup, ¬GroupsSized arrayWalkMachine items oneSizedGroupTester ∧
      ¬EveryGroupHasLine arrayWalkMachine items) ∧
    ∃ items ∈ lex twoSizedGroups, GroupsSized arrayWalkMachine items twoSizedGroupsTester ∧
      EveryGroupHasLine arrayWalkMachine items := by
  have hone : ∀ items ∈ lex oneSizedGroup, ¬EveryGroupHasLine arrayWalkMachine items := by
    unfold EveryGroupHasLine
    decide +kernel
  have htwo : ∀ items ∈ lex twoSizedGroups, EveryGroupHasLine arrayWalkMachine items := by
    unfold EveryGroupHasLine
    decide +kernel
  obtain ⟨items, hitems, hiff⟩ :=
    groupsSized_iff (by decide) (by decide) initTasks_oneSizedGroup
  obtain ⟨items', hitems', hiff'⟩ :=
    groupsSized_iff (by decide) (by decide) initTasks_twoSizedGroups
  exact ⟨⟨items, hitems, mt hiff.mp (hone items hitems), hone items hitems⟩,
    items', hitems', hiff'.mpr (htwo items' hitems'), htwo items' hitems'⟩

/-- The array of the second group has 2 ^ 62 - 1 elements, and room for 15. -/
theorem not_groupsSized_oneSizedGroup :
    initTasks sampleAllocator arrayWalkMachine (some oneSizedGroup)
        (Tester.start sampleOptions ()) = .ok oneSizedGroupTester ∧
      ∀ items, ¬GroupsSized arrayWalkMachine items oneSizedGroupTester := by
  refine ⟨initTasks_oneSizedGroup, fun items h => ?_⟩
  have hlower := (h 1 _ rfl rfl).lower
  revert hlower
  decide

end Chronos.Taskset
