import Mathlib.Algebra.BigOperators.Fin
import Mathlib.Data.List.OfFn
import Chronos.Run.Output
import Chronos.Run.Records

/-!
# What a batch prints

The processes and threads of a batch may interleave in any way. What the parent prints
is what `batch` computes, which takes one run after the other, and in it one task after
the other.
-/

namespace Chronos

/-! ## Runs one after the other -/

section Batch

variable {undefined : ℚ → Nat} {numLocks : Int} {lockTime : Nat} {o : Options}

/-- A run of tasks that are given by their indices. -/
theorem runTasks_ofFn {n : Nat} {rs : Nat → TaskRun} {f g : Fin n → Task}
    (h : ∀ i : Fin n, runTask undefined numLocks lockTime o (rs i) (f i) = some (g i)) :
    runTasks undefined numLocks lockTime o rs (List.ofFn f) = some (List.ofFn g) := by
  induction n generalizing rs with
  | zero => rfl
  | succ n ih =>
    have hfirst : runTask undefined numLocks lockTime o (rs 0) (f 0) = some (g 0) := h 0
    have hrest : runTasks undefined numLocks lockTime o (fun i => rs (i + 1))
        (List.ofFn fun i => f i.succ) = some (List.ofFn fun i => g i.succ) :=
      ih fun i => h i.succ
    rw [List.ofFn_succ, List.ofFn_succ]
    unfold runTasks
    rw [hfirst, hrest]
    rfl

/-- The tasks as the last run leaves them. -/
def lastTasks (ts : List Task) (results : List (List Task × SysStats)) : List Task :=
  results.foldl (fun _ result => result.1) ts

/-- One more run. -/
theorem batch_concat {runs : List (Options × (Nat → TaskRun))} {rs : Nat → TaskRun}
    {ts : List Task} {results : List (List Task × SysStats)} {result : List Task × SysStats}
    (h : batch undefined numLocks lockTime runs ts = some results)
    (hrun : run undefined numLocks lockTime o rs (lastTasks ts results) = some result) :
    batch undefined numLocks lockTime (runs ++ [(o, rs)]) ts = some (results ++ [result]) := by
  induction runs generalizing ts results with
  | nil =>
    cases h
    have hfirst : run undefined numLocks lockTime o rs ts = some result := hrun
    simp only [List.nil_append, batch, hfirst]
    rfl
  | cons r runs ih =>
    unfold batch at h
    simp only [Option.bind_eq_bind, Option.bind_eq_some_iff, Option.pure_def] at h
    obtain ⟨first, hfirst, rest, hrest, h⟩ := h
    cases h
    rw [List.cons_append]
    unfold batch
    rw [hfirst]
    simp only [Option.bind_eq_bind, Option.bind_some]
    rw [ih hrest hrun]
    rfl

end Batch

namespace Run

open Chronos.Lib

variable {S : Setup}

namespace Scenario

variable (W : Scenario S)

/-- What the tasks meet in a run whose processes have the given start times. The process
of a task is that of its group leader. -/
def meets (start : S.Task → Nat) (run i : Nat) : TaskRun :=
  let t : S.Task := ⟨i % S.numTasks, Nat.mod_lt i S.numTasks_pos⟩
  ⟨start (S.groupLeader t), W.delay run t, W.env run t⟩

/-- The first `n` runs of the batch. -/
def runs (starts : Nat → S.Task → Nat) (n : Nat) : List (Options × (Nat → TaskRun)) :=
  (List.range n).map fun run => (W.options.inRun run, W.meets (starts run) run)

theorem meets_val (start : S.Task → Nat) (run : Nat) (t : S.Task) :
    W.meets start run t = ⟨start (S.groupLeader t), W.delay run t, W.env run t⟩ := by
  have ht : (⟨t % S.numTasks, Nat.mod_lt t S.numTasks_pos⟩ : S.Task) = t :=
    Fin.ext (Nat.mod_eq_of_lt t.isLt)
  unfold meets
  rw [ht]

theorem runs_succ (starts : Nat → S.Task → Nat) (n : Nat) :
    W.runs starts (n + 1) =
      W.runs starts n ++ [(W.options.inRun n, W.meets (starts n) n)] := by
  simp [runs, List.range_succ]

/-- Earlier runs do not depend on the start times of a later one. -/
theorem runs_update (starts : Nat → S.Task → Nat) (n : Nat) (start : S.Task → Nat) :
    W.runs (Function.update starts n start) n = W.runs starts n := by
  refine List.map_congr_left fun run hrun => ?_
  rw [Function.update_of_ne (List.mem_range.mp hrun).ne]

end Scenario

/-- The parent is through with `print_results`. -/
def ParentPc.printed : ParentPc → Bool
  | .next => true
  | .exited => true
  | _ => false

/-- The batch as far as it is printed: `batch` gives the results, whose last run has left
the tasks `before`. -/
structure Simulates (W : Scenario S) (starts : Nat → S.Task → Nat)
    (results : List (List Task × SysStats)) (before : S.Task → Task) (s : State S)
    (m : Records S) : Prop where
  batch : batch W.undefined W.numLocks W.lockTime (W.runs starts s.printed)
    (List.ofFn W.tasks) = some results
  last : lastTasks (List.ofFn W.tasks) results = List.ofFn before
  asRead : ∀ t, (before t).asRead = (W.tasks t).asRead
  outcomes : ∀ run < s.printed, ∀ t : S.Task, ∃ xs,
    taskOutcomes W.undefined W.numLocks W.lockTime (W.options.inRun run)
      (W.meets (starts run) run t) (W.tasks t) = some xs
  printed : m.printed = results.map Prod.snd
  running : s.parent.printed = false → ∃ u : S.Task → Task,
    (∀ t, prepareTask W.undefined (W.options.inRun s.run) (before t) = some (u t)) ∧
      RunInv W u s m
  kept : s.parent.printed = true → m.tasks = before

section Simulation

variable {W : Scenario S} {starts : Nat → S.Task → Nat} {results : List (List Task × SysStats)}
  {before : S.Task → Task} {s s' : State S} {m m' : Records S} {a : Action S}

/-- A run starts with all records as `prepare` leaves them. -/
theorem RunInv.of_absent {u : S.Task → Task} (h : ∀ t, s.thread t = .absent)
    (hm : m.tasks = u) : RunInv W u s m where
  idle t _ := congrFun hm t
  recorded t k hk := by
    rw [h t] at hk
    cases hk

theorem Simulates.start (starts : Nat → S.Task → Nat) {x : State S × Records S}
    (h : W.Starts x) : Simulates W starts [] W.tasks x.1 x.2 := by
  obtain ⟨hs, hprepare⟩ := h
  obtain ⟨hprinted, htasks⟩ := W.prepare_eq_some hprepare
  rw [hs]
  exact ⟨rfl, rfl, fun _ => rfl, fun _ hrun => absurd hrun (Nat.not_lt_zero _), hprinted,
    fun _ => ⟨x.2.tasks, htasks, .of_absent (fun _ => rfl) rfl⟩, nofun⟩

/-- After `print_results` the tasks stay as they are until the next run. -/
theorem record_printed (hi : Inv s) (hp : s.parent.printed = true) (hn : a ≠ .again)
    (ha : Acts s a s') (hm : W.record s m a = some m') : m'.tasks = m.tasks := by
  have hdone : ∀ t, s.thread t = .done := by
    refine hi.all_done fun l => ?_
    cases hpc : s.parent with
    | next => trivial
    | exited => trivial
    | _ =>
      rw [hpc] at hp
      cases hp
  refine (W.record_idle hm hn ?_ ?_).1
  · rintro t rfl
    have hpc : s.thread t = .timed := ha.1
    rw [hdone] at hpc
    cases hpc
  · rintro t p k rfl
    have hpc := ha.1.1
    rw [hdone] at hpc
    cases hpc

/-- `print_results` adds what `run` computes for the tasks. -/
theorem Simulates.print (h : Simulates W starts results before s m) (hi : Inv s)
    (hp : s.parent = .print) : ∃ starts results,
      Simulates W starts results m.tasks ((Action.print : Action S).apply s)
        { m with printed := m.printed ++ [m.stats] } := by
  have hnum : s.printed = s.run := by simp [State.printed, hp]
  have hnum' : ((Action.print : Action S).apply s).printed = s.run + 1 := by
    simp [State.printed, Action.apply]
  obtain ⟨u, hu, hrun⟩ := h.running (by rw [hp]; rfl)
  -- each process is taken with the start time that it has agreed on
  set start : S.Task → Nat := fun l => s.localStart ((s.procStart l).getD l)
  have hread : ∀ t, prepareTask W.undefined (W.options.inRun s.run) (W.tasks t) = some (u t) :=
    fun t => (prepareTask_congr (h.asRead t)).symm.trans (hu t)
  have htask : ∀ t : S.Task,
      runTask W.undefined W.numLocks W.lockTime (W.options.inRun s.run)
        (W.meets start s.run t) (before t) = some (m.tasks t) ∧
      ∃ xs, taskOutcomes W.undefined W.numLocks W.lockTime (W.options.inRun s.run)
        (W.meets start s.run t) (W.tasks t) = some xs := by
    intro t
    obtain ⟨p, hstart, hloop, xs, hxs⟩ := hrun.at_print hi hp t (W.jobs_eq _ _ _ (hread t))
    have hp' : start (S.groupLeader t) = s.localStart p := by simp [start, hstart]
    rw [W.meets_val, hp']
    refine ⟨?_, xs, ?_⟩
    · rw [runTask, hu t, Option.map_some]
      exact congrArg some hloop
    · rw [taskOutcomes, hread t, Option.bind_some]
      exact hxs
  have hone : run W.undefined W.numLocks W.lockTime (W.options.inRun s.run)
      (W.meets start s.run) (lastTasks (List.ofFn W.tasks) results) =
        some (List.ofFn m.tasks, m.stats) := by
    rw [h.last, run, runTasks_ofFn fun t => (htask t).1]
    rfl
  refine ⟨Function.update starts s.run start, results ++ [(List.ofFn m.tasks, m.stats)],
    ?_, ?_, ?_, ?_, ?_, ?_, ?_⟩
  · have hbatch := h.batch
    rw [hnum] at hbatch
    rw [hnum', W.runs_succ, W.runs_update, Function.update_self]
    exact batch_concat hbatch hone
  · simp [lastTasks]
  · exact fun t => (runTask_asRead (htask t).1).trans (h.asRead t)
  · intro r hr t
    rw [hnum'] at hr
    rcases Nat.lt_succ_iff_lt_or_eq.mp hr with hlt | rfl
    · rw [Function.update_of_ne hlt.ne]
      exact h.outcomes r (hnum ▸ hlt) t
    · rw [Function.update_self]
      exact (htask t).2
  · simp [h.printed]
  · intro hfalse
    cases hfalse
  · exact fun _ => rfl

theorem Simulates.step (h : Simulates W starts results before s m) (hi : Inv s)
    (hst : StartInv s) (ha : Acts s a s') (hm : W.record s m a = some m') :
    ∃ starts results before, Simulates W starts results before s' m' := by
  by_cases hagain : a = .again
  · subst hagain
    obtain ⟨⟨hp, -⟩, rfl⟩ := ha
    obtain ⟨hprinted, htasks⟩ := W.prepare_eq_some hm
    have hkept := h.kept (by rw [hp]; rfl)
    have hnum : (s.startRun (s.run + 1)).printed = s.printed := by
      simp [State.printed, State.startRun, hp]
    refine ⟨starts, results, before, ?_, h.last, h.asRead, ?_, hprinted.trans h.printed, ?_, ?_⟩
    · exact hnum ▸ h.batch
    · exact fun r hr => h.outcomes r (hnum ▸ hr)
    · exact fun _ => ⟨m'.tasks, hkept ▸ htasks, .of_absent (fun _ => rfl) rfl⟩
    · intro hfalse
      cases hfalse
  by_cases hprint : a = .print
  · subst hprint
    obtain ⟨hp, rfl⟩ := ha
    cases hm
    obtain ⟨starts, results, h'⟩ := h.print hi hp
    exact ⟨starts, results, _, h'⟩
  -- any other action stays before `print_results` or after it
  have hparent : s'.parent.printed = s.parent.printed := by
    obtain ⟨hen, rfl⟩ := ha
    cases a <;> simp_all [Action.Enabled, Action.apply, State.setProc, State.setThread,
      ParentPc.printed]
  have hrun := ha.run_eq hagain
  have hnum : s'.printed = s.printed := by
    unfold State.printed
    cases hpc : s.parent <;> cases hpc' : s'.parent <;> simp_all [ParentPc.printed]
  have hprinted : m'.printed = m.printed := by
    cases a with
    | again => exact absurd rfl hagain
    | print => exact absurd rfl hprint
    | job t p k =>
      obtain ⟨x, -, rfl⟩ := Option.map_eq_some_iff.mp hm
      rfl
    | _ =>
      cases hm
      rfl
  refine ⟨starts, results, before, ?_, h.last, h.asRead, ?_, hprinted.trans h.printed, ?_, ?_⟩
  · exact hnum ▸ h.batch
  · exact fun r hr => h.outcomes r (hnum ▸ hr)
  · intro hp
    obtain ⟨u, hu, hinv⟩ := h.running (hparent ▸ hp)
    exact ⟨u, hrun ▸ hu, hinv.step hi hst hagain ha hm⟩
  · intro hp
    rw [record_printed hi (hparent ▸ hp) hagain ha hm]
    exact h.kept (hparent ▸ hp)

end Simulation

/-! ## The results -/

/-- The states of a batch with what is recorded in them, whatever the order of the steps. -/
def Scenario.Reaches (W : Scenario S) (x : State S × Records S) : Prop :=
  ∃ x₀ acts, W.Starts x₀ ∧ Path W.Step x₀ acts x

section Results

variable {W : Scenario S} {x : State S × Records S}

theorem Scenario.Reaches.simulates (h : W.Reaches x) : Reachable S x.1 ∧
    ∃ starts results before, Simulates W starts results before x.1 x.2 := by
  obtain ⟨x₀, acts, hstart, hpath⟩ := h
  induction hpath with
  | nil =>
    refine ⟨?_, _, _, _, .start (fun _ _ => 0) hstart⟩
    rw [hstart.1]
    exact .refl
  | snoc _ hs ih =>
    obtain ⟨hreach, starts, results, before, hsim⟩ := ih
    exact ⟨hreach.tail hs.1.step, hsim.step (Inv.of_reachable hreach)
      (StartInv.of_reachable hreach) hs.1 hs.2⟩

/-- What has been printed is a line for each run that is through. -/
theorem Scenario.Reaches.length_printed (h : W.Reaches x) :
    x.2.printed.length = x.1.printed := by
  obtain ⟨-, starts, results, before, hsim⟩ := h.simulates
  rw [hsim.printed, List.length_map, ← (batch_eq hsim.batch).length_eq]
  simp [Scenario.runs]

theorem Scenario.Reaches.read (h : W.Reaches x) : x.2.Read W := by
  obtain ⟨x₀, acts, hstart, hpath⟩ := h
  have hread : x₀.2.Read W := Records.Read.prepare (m := ⟨W.tasks, fun _ => 0, []⟩)
    (fun _ => rfl) hstart.2
  exact hpath.invariant (P := fun x => x.2.Read W) hread fun hread hs => hread.record hs.2

theorem Scenario.Safe.exists_exited (hW : W.Safe) (h : W.Reaches x) :
    ∃ acts x', Path W.Step x acts x' ∧ W.Reaches x' ∧ x'.1.parent = .exited := by
  obtain ⟨s', hsteps, hx⟩ := (Inv.of_reachable h.simulates.1).exists_exited
  obtain ⟨acts, m', hpath, -⟩ := hW.exists_path h.read hsteps
  obtain ⟨x₀, acts₀, hstart, hpath₀⟩ := h
  exact ⟨acts, (s', m'), hpath, ⟨x₀, _, hstart, hpath₀.trans hpath⟩, hx⟩

/-- At the end of a batch there is a line for each of its runs. -/
theorem Scenario.Reaches.printed_exited (h : W.Reaches x) (hx : x.1.parent = .exited) :
    x.1.printed = S.runs := by
  rw [State.printed, hx]
  exact Inv.last_run h.simulates.1 hx

/-- **A batch in which no job crashes can be completed** from every state that it reaches,
and then it has printed a line for each of its runs. -/
theorem Scenario.completes (hW : W.Safe) (h : W.Reaches x) :
    ∃ acts x', Path W.Step x acts x' ∧ x'.1.parent = .exited ∧
      x'.2.printed.length = S.runs := by
  obtain ⟨acts, x', hpath, h', hx⟩ := hW.exists_exited h
  exact ⟨acts, x', hpath, hx, h'.length_printed.trans (h'.printed_exited hx)⟩

theorem Scenario.Safe.reaches_start (hW : W.Safe) :
    ∃ m : Records S, W.Reaches (State.start S, m) := by
  obtain ⟨m, hm⟩ := hW.exists_starts
  exact ⟨m, _, [], hm, .nil⟩

/-- Two runs of three tasks end with two lines. -/
theorem Scenario.completes_threeTasks : ∃ m acts x',
    Path Taskset.threeTasksScenario.Step (State.start _, m) acts x' ∧
      x'.1.parent = .exited ∧ x'.2.printed.length = 2 := by
  obtain ⟨m, hm⟩ := Taskset.threeTasksScenario_safe.reaches_start
  exact ⟨m, Scenario.completes Taskset.threeTasksScenario_safe hm⟩

theorem exists_reaches_threeTasks : ∃ x, Taskset.threeTasksScenario.Reaches x ∧
    x.1.parent = .exited := by
  obtain ⟨m, hm⟩ := Taskset.threeTasksScenario_safe.reaches_start
  obtain ⟨-, x, -, h, hx⟩ := Taskset.threeTasksScenario_safe.exists_exited hm
  exact ⟨x, h, hx⟩

/-- **A batch prints what its runs compute one by one**, in every state that it reaches:
for some start time of each process in each run, the statistics printed are those of
`batch`. -/
theorem Scenario.prints_batch (h : W.Reaches x) :
    ∃ (starts : Nat → S.Task → Nat) (results : List (List Task × SysStats)),
      batch W.undefined W.numLocks W.lockTime (W.runs starts x.1.printed) (List.ofFn W.tasks) =
          some results ∧
        x.2.printed = results.map Prod.snd := by
  obtain ⟨-, starts, results, before, hsim⟩ := h.simulates
  exact ⟨starts, results, hsim.batch, hsim.printed⟩

theorem Scenario.prints_batch_threeTasks : ∃ x, Taskset.threeTasksScenario.Reaches x ∧
    x.1.printed = 2 ∧ ∃ starts results,
      batch (fun _ => 0) 0 0 (Taskset.threeTasksScenario.runs starts 2)
          (List.ofFn Taskset.threeTasksArray.task) = some results ∧
        x.2.printed = results.map Prod.snd := by
  obtain ⟨x, hx, hexited⟩ := exists_reaches_threeTasks
  have hprinted : x.1.printed = 2 := hx.printed_exited hexited
  obtain ⟨starts, results, hbatch, hlines⟩ := Scenario.prints_batch hx
  rw [hprinted] at hbatch
  exact ⟨x, hx, hprinted, starts, results, hbatch, hlines⟩

/-- The statistics sum up the outcomes of the counted jobs of all tasks. -/
structure Tallies (sys : SysStats) (utility : S.Task → Nat) (outcomes : S.Task → List Outcome) :
    Prop where
  totalRelease : sys.totalRelease = (∑ t, (outcomes t).length : Nat)
  metRelease : sys.metRelease = (∑ t, (outcomes t).countP Outcome.met : Nat)
  totalUtil : sys.totalUtil = (∑ t, (outcomes t).length * utility t : Nat)
  metUtil : sys.metUtil = (∑ t, utility t * (outcomes t).countP Outcome.met : Nat)
  abortCount : sys.abortCount = (∑ t, (outcomes t).countP Outcome.aborted : Nat)
  tardiness_nonpos : sys.maxTardiness ≤ 0
  tardiness_le : ∀ t, ∀ x ∈ outcomes t, x.aborted = false → sys.maxTardiness ≤ x.tardiness
  tardiness_mem : sys.maxTardiness < 0 →
    ∃ t, ∃ x ∈ outcomes t, x.aborted = false ∧ x.tardiness = sys.maxTardiness

end Results

/-! ## Sums over the jobs -/

theorem total_ofFn (f : Task → Nat) {n : Nat} (ts : Fin n → Task) :
    total f (List.ofFn ts) = ∑ i, f (ts i) := by
  induction n with
  | zero => rfl
  | succ n ih =>
    rw [List.ofFn_succ, Fin.sum_univ_succ]
    exact congrArg (f (ts 0) + ·) (ih fun i => ts i.succ)

theorem foldl_min_spec (xs : List Int) (a : Int) :
    xs.foldl min a ∈ a :: xs ∧ ∀ x ∈ a :: xs, xs.foldl min a ≤ x :=
  List.min?_eq_some_iff.mp List.min?_cons'

theorem mem_tardinesses {xs : List Outcome} {d : Int} :
    d ∈ Outcome.tardinesses xs ↔ ∃ x ∈ xs, x.aborted = false ∧ x.tardiness = d := by
  simp [Outcome.tardinesses, and_assoc]

section Tallies

variable {sys : SysStats} {ts : S.Task → Task} {start : S.Task → Nat}
  {outcomes : S.Task → List Outcome}

/-- **Exact counters of the tasks and the system** sum up the outcomes. -/
theorem Tallies.of_exact (h : sys.Exact (List.ofFn ts))
    (hts : ∀ t, (ts t).Exact (start t) (outcomes t)) :
    Tallies sys (fun t => (ts t).utility) outcomes := by
  obtain ⟨hmem, hle⟩ := foldl_min_spec ((List.ofFn ts).map Task.maxTardiness) 0
  rw [← h.maxTardiness] at hmem hle
  have htask : ∀ t, sys.maxTardiness ≤ (ts t).maxTardiness := fun t =>
    hle _ (List.mem_cons_of_mem _ (List.mem_map_of_mem (List.mem_ofFn.mpr ⟨t, rfl⟩)))
  refine ⟨?_, ?_, ?_, ?_, ?_, hle 0 List.mem_cons_self, ?_, ?_⟩
  · rw [h.totalRelease, total_ofFn]
    simp only [(hts _).count]
  · rw [h.metRelease, total_ofFn]
    simp only [(hts _).met]
  · rw [h.totalUtil, total_ofFn]
    simp only [(hts _).count]
  · rw [h.metUtil, total_ofFn]
    simp only [(hts _).utility, (hts _).met]
  · rw [h.abortCount, total_ofFn]
    simp only [(hts _).aborted]
  · intro t x hx hab
    have htard := (hts t).tardiness
    have hmin := (foldl_min_spec (Outcome.tardinesses (outcomes t)) 0).2 x.tardiness
      (List.mem_cons_of_mem _ (mem_tardinesses.mpr ⟨x, hx, hab, rfl⟩))
    exact (htask t).trans (htard.trans_le hmin)
  · intro hneg
    rcases List.mem_cons.mp hmem with hzero | hmem
    · exact absurd hzero hneg.ne
    obtain ⟨u, hu, heq⟩ := List.mem_map.mp hmem
    obtain ⟨t, rfl⟩ := List.mem_ofFn.mp hu
    have hspec := (foldl_min_spec (Outcome.tardinesses (outcomes t)) 0).1
    rw [← (hts t).tardiness, heq] at hspec
    rcases List.mem_cons.mp hspec with hzero | hmem
    · exact absurd hzero hneg.ne
    · exact ⟨t, mem_tardinesses.mp hmem⟩

end Tallies

section Results

variable {W : Scenario S} {x : State S × Records S}

/-- What a run leaves of what it has set up. -/
theorem runTask_prepared {undefined : ℚ → Nat} {numLocks : Int} {lockTime : Nat} {o : Options}
    {r : TaskRun} {t t' u : Task} (h : runTask undefined numLocks lockTime o r t = some t')
    (hu : prepareTask undefined o t = some u) :
    t'.maxReleases = u.maxReleases ∧ t'.utility = u.utility := by
  rw [runTask, hu, Option.map_some] at h
  cases h
  have hclear := clearTaskStats_releaseLoop (T := ⟨o, numLocks, lockTime, clock r.start⟩) r.env
    u.maxReleases (r.start + r.delay) { u with numReleases := 0 }
  exact ⟨(congrArg Task.maxReleases hclear :), (congrArg Task.utility hclear :)⟩

/-- The tasks after a run of tasks that are given by their indices. -/
theorem exists_of_runTasks {undefined : ℚ → Nat} {numLocks : Int} {lockTime : Nat} {o : Options}
    {n : Nat} {rs : Nat → TaskRun} {f : Fin n → Task} {ts : List Task}
    (h : runTasks undefined numLocks lockTime o rs (List.ofFn f) = some ts) :
    ∃ g : Fin n → Task, ts = List.ofFn g ∧
      ∀ i : Fin n, runTask undefined numLocks lockTime o (rs i) (f i) = some (g i) := by
  have hone : ∀ i : Fin n, ∃ t, runTask undefined numLocks lockTime o (rs i) (f i) = some t := by
    intro i
    obtain ⟨t, -, ht⟩ := (runTasks_getElem? h (i := i)).1 (f i) (by simp)
    exact ⟨t, ht⟩
  choose g hg using hone
  refine ⟨g, ?_, hg⟩
  rw [runTasks_ofFn hg] at h
  exact (Option.some.inj h).symm

/-- **Every line that a batch prints is exact**: it sums up the outcomes that the counted
jobs of all tasks have in its run, whatever the order of the steps, if the true totals
fit. -/
theorem Scenario.prints_tallies (h : W.Reaches x) {run : Nat} {sys : SysStats}
    (hsys : x.2.printed[run]? = some sys) {u : S.Task → Task}
    (hu : ∀ t, prepareTask W.undefined (W.options.inRun run) (W.tasks t) = some (u t))
    (hfit : TotalsFit (List.ofFn u)) :
    ∃ (start : S.Task → Nat) (outcomes : S.Task → List Outcome),
      (∀ t : S.Task, taskOutcomes W.undefined W.numLocks W.lockTime (W.options.inRun run)
        (W.meets start run t) (W.tasks t) = some (outcomes t)) ∧
      Tallies sys (fun t => (W.tasks t).utility) outcomes := by
  obtain ⟨-, starts, results, before, hsim⟩ := h.simulates
  rw [hsim.printed, List.getElem?_map, Option.map_eq_some_iff] at hsys
  obtain ⟨⟨ts, sys⟩, hresult, rfl⟩ := hsys
  obtain ⟨hlt, hget⟩ := List.getElem?_eq_some_iff.mp hresult
  obtain ⟨hlen, hruns⟩ := List.forall₂_iff_get.mp (batch_eq hsim.batch)
  have hlt' : run < x.1.printed := by
    simpa [Scenario.runs] using hlen.trans_gt hlt
  have hone := hruns run (hlen ▸ hlt) hlt
  simp only [List.get_eq_getElem, hget, Scenario.runs, List.getElem_map, List.getElem_range]
    at hone
  obtain ⟨ts', hts, heq⟩ := Option.map_eq_some_iff.mp hone
  cases heq
  obtain ⟨after, rfl, hafter⟩ := exists_of_runTasks hts
  choose outcomes houtcomes using hsim.outcomes run hlt'
  have hprepared := fun t => runTask_prepared (hafter t) (hu t)
  have hfit' : TotalsFit (List.ofFn after) := by
    unfold TotalsFit at hfit ⊢
    simp only [total_ofFn, hprepared] at hfit ⊢
    exact hfit
  have hutil : ∀ t, (after t).maxReleases * (after t).utility < 2 ^ 32 := by
    intro t
    have hmem : after t ∈ List.ofFn after := List.mem_ofFn.mpr ⟨t, rfl⟩
    have hle := term_le_total (f := fun t => t.maxReleases * t.utility) hmem
    have hlt := hfit'.2
    omega
  have hexact := fun t => task_exact (hafter t) (houtcomes t) (hutil t)
  have hsum : SysStats.Exact _ (List.ofFn after) := sysStats_exact hfit' fun t ht => by
    obtain ⟨i, rfl⟩ := List.mem_ofFn.mp ht
    exact ⟨_, _, hexact i⟩
  refine ⟨starts run, outcomes, houtcomes, ?_⟩
  have hutility : (fun t => (W.tasks t).utility) = fun t => (after t).utility :=
    funext fun t => (congrArg Task.utility (runTask_asRead (hafter t)) :).symm
  rw [hutility]
  exact .of_exact hsum hexact

end Results

section

open Taskset

/-- A task of `threeTasks` as the second run sets it up. -/
def threeTasksPrepared (t : threeTasksSetup.Task) : Task :=
  (prepareTask (fun _ => 0) (threeTasksTester.options.inRun 1) (threeTasksArray.task t)).getD
    (threeTasksArray.task t)

/-- The second line sums up the outcomes of the second run. -/
theorem Scenario.prints_tallies_threeTasks : ∃ x sys, threeTasksScenario.Reaches x ∧
    x.2.printed[1]? = some sys ∧
      ∃ (start : threeTasksSetup.Task → Nat) (outcomes : threeTasksSetup.Task → List Outcome),
        (∀ t : threeTasksSetup.Task,
          taskOutcomes (fun _ => 0) 0 0 (threeTasksTester.options.inRun 1)
            (threeTasksScenario.meets start 1 t) (threeTasksArray.task t) = some (outcomes t)) ∧
        Tallies sys (fun t => (threeTasksArray.task t).utility) outcomes := by
  obtain ⟨x, hx, hexited⟩ := exists_reaches_threeTasks
  have hprinted : x.1.printed = 2 := hx.printed_exited hexited
  have hlt : 1 < x.2.printed.length := by
    rw [hx.length_printed, hprinted]
    exact Nat.one_lt_two
  have hsys := List.getElem?_eq_getElem hlt
  refine ⟨x, _, hx, hsys, Scenario.prints_tallies hx hsys (u := threeTasksPrepared) ?_ ?_⟩
  · decide +kernel
  · decide +kernel

end

end Run

end Chronos
