import Chronos.Run.Once
import Chronos.Taskset.Locks

/-!
# Thread groups of an accepted file

The first task of a group in the file is its leader, and all tasks of the group
point to it. This is what a run asks of its tasks, so it starts and joins each of
them once.
-/

namespace Chronos.Taskset

open Lib

/-- Among the tasks read, the newest first, the `i`-th one read is the first one
of the group `g`. -/
def IsFirstOf (ts : List Task) (i g : Nat) : Prop :=
  (∃ t, ts.reverse[i]? = some t ∧ t.threadGroup = g) ∧
    ∀ j < i, ∀ t, ts.reverse[j]? = some t → t.threadGroup ≠ g

/-- Every task points to the first task of its group. -/
def LedByFirst (ts : List Task) : Prop := ∀ t ∈ ts, IsFirstOf ts t.groupLeader t.threadGroup

/-- **One leader**: in each group with a task, exactly one task is its own leader;
it is the first task of the group in the file, and every task points to it. -/
structure OneLeader (ts : List Task) : Prop where
  unique : ∀ t ∈ ts, ∃! i : Nat, ∃ u, ts.reverse[i]? = some u ∧
    u.threadGroup = t.threadGroup ∧ u.groupLeader = i
  first : LedByFirst ts

/-! ## Leaders -/

section Leaders

variable {ts : List Task} {t : Task} {i j g : Nat}

theorem getElem?_reverse_cons (h : i < ts.length) : (t :: ts).reverse[i]? = ts.reverse[i]? := by
  rw [List.reverse_cons, List.getElem?_append_left (by rwa [List.length_reverse])]

theorem getElem?_reverse_length : (t :: ts).reverse[ts.length]? = some t := by
  rw [List.reverse_cons, List.getElem?_append_right (by rw [List.length_reverse])]
  simp

theorem IsFirstOf.lt (h : IsFirstOf ts i g) : i < ts.length := by
  obtain ⟨⟨u, hu, -⟩, -⟩ := h
  have hlt := List.getElem?_eq_some_iff.mp hu
  simpa using hlt.1

theorem IsFirstOf.eq (hi : IsFirstOf ts i g) (hj : IsFirstOf ts j g) : i = j := by
  obtain ⟨⟨u, hu, hug⟩, hfirst⟩ := hi
  obtain ⟨⟨v, hv, hvg⟩, hfirst'⟩ := hj
  rcases Nat.lt_trichotomy i j with hlt | heq | hgt
  · exact absurd hug (hfirst' i hlt u hu)
  · exact heq
  · exact absurd hvg (hfirst j hgt v hv)

/-- A task read later does not change which one was first. -/
theorem IsFirstOf.cons (h : IsFirstOf ts i g) : IsFirstOf (t :: ts) i g := by
  have hlt := h.lt
  obtain ⟨⟨u, hu, hug⟩, hfirst⟩ := h
  refine ⟨⟨u, ?_, hug⟩, ?_⟩
  · rw [getElem?_reverse_cons hlt]
    exact hu
  · intro j hj v hv
    rw [getElem?_reverse_cons (hj.trans hlt)] at hv
    exact hfirst j hj v hv

/-- The first task of a group leads it. -/
theorem isFirstOf_new (h : ∀ u ∈ ts, u.threadGroup ≠ t.threadGroup) :
    IsFirstOf (t :: ts) ts.length t.threadGroup := by
  refine ⟨⟨t, getElem?_reverse_length, rfl⟩, ?_⟩
  intro j hj u hu
  rw [getElem?_reverse_cons hj] at hu
  exact h u (List.mem_reverse.mp (List.mem_of_getElem? hu))

@[simp] theorem threadGroup_initGroupLeader : (initGroupLeader ts t).threadGroup = t.threadGroup :=
  initGroupLeader_field Task.threadGroup (fun _ _ => rfl) ts t

/-- `init_group_leader` finds the first task of the group. -/
theorem LedByFirst.initGroupLeader (h : LedByFirst ts) :
    IsFirstOf (initGroupLeader ts t :: ts) (initGroupLeader ts t).groupLeader t.threadGroup := by
  cases hfind : ts.find? (·.threadGroup = t.threadGroup) with
  | some curr =>
    have hgroup : curr.threadGroup = t.threadGroup := by simpa using List.find?_some hfind
    have hleader : (Taskset.initGroupLeader ts t).groupLeader = curr.groupLeader := by
      simp [Taskset.initGroupLeader, hfind]
    rw [hleader, ← hgroup]
    exact (h curr (List.mem_of_find?_eq_some hfind)).cons
  | none =>
    have hleader : (Taskset.initGroupLeader ts t).groupLeader = ts.length := by
      simp [Taskset.initGroupLeader, hfind]
    have hgroup : (Taskset.initGroupLeader ts t).threadGroup = t.threadGroup :=
      threadGroup_initGroupLeader
    rw [hleader, ← hgroup]
    apply isFirstOf_new
    intro u hu
    simpa using List.find?_eq_none.mp hfind u hu

theorem LedByFirst.add (h : LedByFirst ts) : LedByFirst (Taskset.initGroupLeader ts t :: ts) := by
  intro u hu
  rcases List.mem_cons.mp hu with rfl | hu
  · rw [threadGroup_initGroupLeader]
    exact h.initGroupLeader
  · exact (h u hu).cons

/-- Leaders only depend on groups and pointers to leaders. -/
theorem LedByFirst.congr {ts' : List Task} (h : LedByFirst ts)
    (hmap : ts'.map (fun t => (t.threadGroup, t.groupLeader)) =
      ts.map (fun t => (t.threadGroup, t.groupLeader))) : LedByFirst ts' := by
  have hget : ∀ i : Nat,
      (ts'.reverse[i]?).map Task.threadGroup = (ts.reverse[i]?).map Task.threadGroup := by
    intro i
    have hgroups := congrArg (List.map Prod.fst) hmap
    simp only [List.map_map, Function.comp_def] at hgroups
    rw [← List.getElem?_map, ← List.getElem?_map, List.map_reverse, List.map_reverse]
    rw [show ts'.map Task.threadGroup = ts.map Task.threadGroup from hgroups]
  have hfirst : ∀ i g, IsFirstOf ts' i g ↔ IsFirstOf ts i g := by
    intro i g
    have hiff : ∀ us : List Task, IsFirstOf us i g ↔
        (us.reverse[i]?).map Task.threadGroup = some g ∧
          ∀ j < i, (us.reverse[j]?).map Task.threadGroup ≠ some g := by
      intro us
      simp [IsFirstOf]
    rw [hiff, hiff]
    simp only [hget]
  intro t ht
  obtain ⟨u, hu, heq⟩ :
      ∃ u ∈ ts, (u.threadGroup, u.groupLeader) = (t.threadGroup, t.groupLeader) := by
    have hmem : (t.threadGroup, t.groupLeader) ∈ ts'.map fun t => (t.threadGroup, t.groupLeader) :=
      List.mem_map_of_mem ht
    rw [hmap] at hmem
    exact List.mem_map.mp hmem
  simp only [Prod.mk.injEq] at heq
  rw [hfirst, ← heq.1, ← heq.2]
  exact h u hu

/-- The task that a task points to leads itself. -/
theorem LedByFirst.leader (h : LedByFirst ts) (ht : t ∈ ts) :
    ∃ u ∈ ts, ts.reverse[t.groupLeader]? = some u ∧ u.threadGroup = t.threadGroup ∧
      u.groupLeader = t.groupLeader := by
  have hfirst := h t ht
  obtain ⟨⟨u, hu, hgroup⟩, -⟩ := hfirst
  have hmem : u ∈ ts := List.mem_reverse.mp (List.mem_of_getElem? hu)
  exact ⟨u, hmem, hu, hgroup, (hgroup ▸ h u hmem).eq (h t ht)⟩

theorem LedByFirst.oneLeader (h : LedByFirst ts) : OneLeader ts := by
  refine ⟨fun t ht => ?_, h⟩
  obtain ⟨u, -, hu, hgroup, hleader⟩ := h.leader ht
  refine ⟨t.groupLeader, ⟨u, hu, hgroup, hleader⟩, ?_⟩
  rintro j ⟨v, hv, hvgroup, rfl⟩
  have hmem : v ∈ ts := List.mem_reverse.mp (List.mem_of_getElem? hv)
  exact (hvgroup ▸ h v hmem).eq (h t ht)

end Leaders

/-! ## An accepted file -/

section

variable {σ : Type} {A : Allocator σ} {m : Machine} {T T' : Tester σ}

theorem LedByFirst.loadItem {item : Item} (h : LedByFirst T.taskList)
    (hload : loadItem A m T item = .ok T') : LedByFirst T'.taskList := by
  rcases loadItem_cases hload with ⟨w, optional, mask, -, -, -, -, htasks⟩ | ⟨-, -, hfields⟩
  · rw [htasks]
    exact h.add
  · exact h.congr (hfields _ fun _ _ => rfl)

/-- The array `tester.tasks`: it is not empty and its tasks have leaders. The newest
task comes first. -/
structure TaskArray where
  tasks : List Task
  nonempty : tasks ≠ []
  led : LedByFirst tasks

/-- **The tasks of an accepted file** have leaders. -/
theorem exists_taskArray {options : Options} {heap : σ} {f : List Char}
    (h : initTasks A m (some f) (Tester.start options heap) = .ok T) :
    ∃ ts : TaskArray, ts.tasks = T.taskList := by
  obtain ⟨items, T₀, heap, -, hled, -, hne, rfl⟩ :=
    initTasks_invariant (fun _ T => LedByFirst T.taskList) h (fun _ => nofun)
      fun _ _ _ _ hP hload => hP.loadItem hload
  exact ⟨⟨T₀.taskList, hne, hled⟩, rfl⟩

end

/-! ## A batch of runs with these tasks -/

namespace TaskArray

variable (ts : TaskArray)

/-- `tester.tasks[t]` -/
def task (t : Fin ts.tasks.length) : Task := ts.tasks.get t

theorem led_task (t : Fin ts.tasks.length) :
    IsFirstOf ts.tasks (ts.task t).groupLeader (ts.task t).threadGroup :=
  ts.led _ (List.get_mem ts.tasks t)

/-- Where in the array the leader of a task is. -/
def leader (t : Fin ts.tasks.length) : Fin ts.tasks.length :=
  ⟨ts.tasks.length - 1 - (ts.task t).groupLeader, by
    have := (ts.led_task t).lt
    omega⟩

theorem getElem_leader (t : Fin ts.tasks.length) :
    ts.tasks.reverse[(ts.task t).groupLeader]? = some (ts.task (ts.leader t)) := by
  have hlt := (ts.led_task t).lt
  rw [List.getElem?_eq_getElem (by rwa [List.length_reverse]), List.getElem_reverse]
  rfl

theorem threadGroup_leader (t : Fin ts.tasks.length) :
    (ts.task (ts.leader t)).threadGroup = (ts.task t).threadGroup := by
  obtain ⟨u, -, hu, hgroup, -⟩ := ts.led.leader (List.get_mem ts.tasks t)
  have hleader := ts.getElem_leader t
  rw [task, hu] at hleader
  cases hleader
  exact hgroup

theorem leader_eq_iff (t u : Fin ts.tasks.length) :
    ts.leader t = ts.leader u ↔ (ts.task t).threadGroup = (ts.task u).threadGroup := by
  constructor
  · intro h
    rw [← ts.threadGroup_leader t, h, ts.threadGroup_leader u]
  · intro h
    have heq : (ts.task t).groupLeader = (ts.task u).groupLeader :=
      (ts.led_task t).eq (h ▸ ts.led_task u)
    unfold leader
    simp only [heq]

/-- The runs of a batch with the tasks of the array, each of which releases any
number of jobs. -/
def setup (jobs : Fin ts.tasks.length → Nat) (runs : Nat) (runs_pos : 0 < runs)
    (warnings : List String) : Run.Setup where
  numTasks := ts.tasks.length
  numTasks_pos := List.length_pos_iff.mpr ts.nonempty
  threadGroup t := (ts.task t).threadGroup
  groupLeader := ts.leader
  leader_iff := ts.leader_eq_iff
  leader_group := ts.threadGroup_leader
  jobs
  runs
  runs_pos
  warnings

end TaskArray

/-- **Every task of an accepted file is started and joined once** in every run that
comes to its end. -/
theorem eachOnce_of_initTasks {σ : Type} {A : Allocator σ} {m : Machine} {T : Tester σ}
    {options : Options} {heap : σ} {f : List Char}
    (h : initTasks A m (some f) (Tester.start options heap) = .ok T) :
    OneLeader T.taskList ∧ ∃ ts : TaskArray, ts.tasks = T.taskList ∧
      ∀ jobs runs runs_pos acts (s : Run.State (ts.setup jobs runs runs_pos T.warnings)),
        Run.RunActs acts s → s.parent = .print → Run.EachOnce acts := by
  obtain ⟨ts, hts⟩ := exists_taskArray h
  refine ⟨hts ▸ ts.led.oneLeader, ts, hts, ?_⟩
  intro jobs runs runs_pos acts s hacts hp
  exact hacts.eachOnce hp

/-! ## Three tasks in two groups -/

def threeTasks : List Char :=
  "L 0\nT 0 1 0 500000 150000 17\nT 1 2 0 500000 150000 17\nT 0 1 0 500000 150000 17\n".toList

/-- A task of `threeTasks`. -/
def threeTasksTask (cpuMask threadGroup groupLeader : Nat) : Task :=
  { freshTask with
    cpuMask
    threadGroup
    groupLeader
    period := 500000
    periodTs := ⟨0, 500000000⟩
    execTime := 150000
    utility := 17
    taskWss := 0 }

/-- What reading it leaves, with locking turned off. -/
def threeTasksTester : Tester Unit where
  options := { sampleOptions with locking := NO_LOCKING }
  heap := ()
  domainMasks := [1, 2, 0, 0]
  numLocks := 0
  taskList := [threeTasksTask 1 1 0, threeTasksTask 2 2 1, threeTasksTask 1 1 0]
  seenGroup := false
  warnings :=
    ["Locking enabled, but the taskset file doesn't specify locks. Turning locking off."]

theorem initTasks_threeTasks : initTasks sampleAllocator sampleMachine (some threeTasks)
    (Tester.start sampleOptions ()) = .ok threeTasksTester := by
  decide +kernel

theorem eachOnce_threeTasks :
    OneLeader threeTasksTester.taskList ∧ ∃ ts : TaskArray, ts.tasks = threeTasksTester.taskList ∧
      ∀ jobs runs runs_pos acts
        (s : Run.State (ts.setup jobs runs runs_pos threeTasksTester.warnings)),
        Run.RunActs acts s → s.parent = .print → Run.EachOnce acts :=
  eachOnce_of_initTasks initTasks_threeTasks

end Chronos.Taskset
