import Chronos.Lib.Helpers
import Chronos.Slope.Defs
import Chronos.Slope.Invalidators
import Chronos.Taskset.Sizes

/-!
# Measuring among the other threads

`calc_slope_average` and `calc_slope_wcet` measure a workload while the invalidators work on the
same group data on the other processors, and the latter also while the polluter sweeps over the
cache. Here is the order in which the main thread starts and stops these threads and allocates
and frees what they work on. How many iterations a measurement has does not matter for it, nor
does what it yields.

The polluter is `none`, and the invalidators are numbered from 0.
-/

namespace Chronos.Slope.Measure

open Lib Lib.Helpers Taskset

abbrev SLOPE_GEN_SAMPLES : Nat := 10

abbrev Cmd := Command (Option Nat)

section

-- whether the workload has functions that allocate and free its data
variable (hasData : Bool)

def startInvalidator (i : Nat) : List Cmd :=
  [.clear (some i)] ++ (if hasData then [.makeData (some i)] else []) ++
    [.create (some i), .awaitStarted (some i)]

def startInvalidators (active : Nat) : List Cmd :=
  (List.range active).flatMap (startInvalidator hasData)

def stopInvalidator (i : Nat) : List Cmd :=
  [.setDone (some i), .join (some i)] ++ if hasData then [.freeData (some i)] else []

def stopInvalidators (active : Nat) : List Cmd :=
  (List.range active).flatMap (stopInvalidator hasData)

def startPolluter : List Cmd := [.clear none, .create none, .awaitStarted none]

def stopPolluter : List Cmd := [.setDone none, .join none]

/-- `measure_run`, with the threads around it. -/
def disturbedRun (polluted : Bool) (active : Nat) : List Cmd :=
  startInvalidators hasData active ++ (if polluted then startPolluter else []) ++ [.measure] ++
    (if polluted then stopPolluter else []) ++ stopInvalidators hasData active

/-- The first run is for a very loose estimate. -/
def calcSlope (polluted : Bool) (active iters : Nat) : List Cmd :=
  (if hasData then [.makeGroup, .makeOwn] else []) ++
    (List.replicate (iters + 1) (disturbedRun hasData polluted active)).flatten ++
    if hasData then [.freeOwn, .freeGroup] else []

def calcSlopeAverage (active iters : Nat) : List Cmd := calcSlope hasData false active iters

def calcSlopeWcet (active iters : Nat) : List Cmd := calcSlope hasData true active iters

/-- The calculations of `update_slopes`, one for each sample. -/
def updateSlopes (w : Workload) (active : Nat) : List Cmd :=
  if noWssVariation w then
    calcSlopeAverage hasData active (SLOPE_GEN_SAMPLES * SLOPE_GEN_WSS_SAMPLES)
  else
    (List.replicate SLOPE_GEN_WSS_SAMPLES
      (calcSlopeAverage hasData active SLOPE_GEN_SAMPLES)).flatten

end

/-! ## What the threads see of it -/

section

variable (hasData polluted : Bool) (active : Nat)

/-- Those that disturb a measurement. -/
def team : Option Nat → Bool
  | none => polluted
  | some i => i < active

/-- The polluter has an array of its own. -/
def needs : Option Nat → Bool
  | none => false
  | some _ => hasData

/-- The view of a helper between two runs. -/
def between : View := ⟨.off, false, hasData, hasData⟩

variable {hasData polluted active} {i j : Nat} {v w : View}

/-- A loop over the invalidators, as one of them sees it. -/
theorem run_flatMap_range {f : Nat → List Cmd}
    (hother : ∀ (j : Nat) (v : View), j ≠ i →
      v.run (team polluted active) (needs hasData) (some i) (f j) = some v) (n : Nat) :
    v.run (team polluted active) (needs hasData) (some i) ((List.range n).flatMap f) =
      if i < n then v.run (team polluted active) (needs hasData) (some i) (f i) else some v := by
  induction n with
  | zero => rfl
  | succ n ih =>
    rw [List.range_succ, List.flatMap_append, View.run_append, ih, List.flatMap_singleton]
    rcases Nat.lt_trichotomy i n with hlt | rfl | hgt
    · rw [if_pos hlt, if_pos (Nat.lt_succ_of_lt hlt)]
      cases v.run (team polluted active) (needs hasData) (some i) (f i) with
      | none => rfl
      | some w => exact hother n w (Nat.ne_of_gt hlt)
    · rw [if_neg (Nat.lt_irrefl i), if_pos (Nat.lt_succ_self i)]
      rfl
    · rw [if_neg (Nat.not_lt.mpr hgt.le), if_neg (Nat.not_lt.mpr hgt)]
      exact hother n v (Nat.ne_of_lt hgt)

/-- The polluter is not concerned by the invalidators' commands. -/
theorem run_none_flatMap {f : Nat → List Cmd}
    (hf : ∀ (j : Nat) (v : View), v.run (team polluted active) (needs hasData) none (f j) = some v)
    (l : List Nat) :
    v.run (team polluted active) (needs hasData) none (l.flatMap f) = some v := by
  induction l with
  | nil => rfl
  | cons j l ih =>
    rw [List.flatMap_cons, View.run_append, hf]
    exact ih

theorem run_disturbedRun_some (i : Nat) :
    (between hasData).run (team polluted active) (needs hasData) (some i)
      (disturbedRun hasData polluted active) = some (between hasData) := by
  have hstart : ∀ (j : Nat) (v : View), j ≠ i →
      v.run (team polluted active) (needs hasData) (some i) (startInvalidator hasData j) =
        some v := by
    intro j v hj
    cases hasData <;> simp [startInvalidator, View.run_cons, View.next, hj]
  have hstop : ∀ (j : Nat) (v : View), j ≠ i →
      v.run (team polluted active) (needs hasData) (some i) (stopInvalidator hasData j) =
        some v := by
    intro j v hj
    cases hasData <;> simp [stopInvalidator, View.run_cons, View.next, hj]
  have hpolluter : ∀ (v : View), v.run (team polluted active) (needs hasData) (some i)
      (if polluted then startPolluter else []) = some v ∧
      v.run (team polluted active) (needs hasData) (some i)
        (if polluted then stopPolluter else []) = some v := by
    intro v
    cases polluted <;> simp [startPolluter, stopPolluter, View.run_cons, View.next]
  unfold disturbedRun startInvalidators stopInvalidators
  rw [View.run_append, View.run_append, View.run_append, View.run_append,
    run_flatMap_range hstart]
  by_cases hi : i < active
  · -- it is started, runs during the measurement, and is stopped
    rw [if_pos hi]
    have hrunning : (between hasData).run (team polluted active) (needs hasData) (some i)
        (startInvalidator hasData i) = some ⟨.running, hasData, hasData, hasData⟩ := by
      cases hasData <;>
        simp [startInvalidator, between, View.run_cons, View.next, needs]
    rw [hrunning, Option.bind_some, (hpolluter _).1, Option.bind_some]
    have hmeasure : (View.mk .running hasData hasData hasData).run (team polluted active)
        (needs hasData) (some i) [.measure] = some ⟨.running, hasData, hasData, hasData⟩ := by
      cases hasData <;> simp [View.run_cons, View.next, needs]
    rw [hmeasure, Option.bind_some, (hpolluter _).2, Option.bind_some, run_flatMap_range hstop,
      if_pos hi]
    cases hasData <;> simp [stopInvalidator, between, View.run_cons, View.next]
  · rw [if_neg hi, Option.bind_some, (hpolluter _).1, Option.bind_some]
    have hmeasure : (between hasData).run (team polluted active) (needs hasData) (some i)
        [.measure] = some (between hasData) := by
      cases hasData <;> simp [between, View.run_cons, View.next, needs, team, hi]
    rw [hmeasure, Option.bind_some, (hpolluter _).2, Option.bind_some, run_flatMap_range hstop,
      if_neg hi]

theorem run_disturbedRun_none :
    (between hasData).run (team polluted active) (needs hasData) none
      (disturbedRun hasData polluted active) = some (between hasData) := by
  have hstart : ∀ (j : Nat) (v : View),
      v.run (team polluted active) (needs hasData) none (startInvalidator hasData j) = some v := by
    intro j v
    cases hasData <;> simp [startInvalidator, View.run_cons, View.next]
  have hstop : ∀ (j : Nat) (v : View),
      v.run (team polluted active) (needs hasData) none (stopInvalidator hasData j) = some v := by
    intro j v
    cases hasData <;> simp [stopInvalidator, View.run_cons, View.next]
  unfold disturbedRun startInvalidators stopInvalidators
  rw [View.run_append, View.run_append, View.run_append, View.run_append,
    run_none_flatMap hstart, Option.bind_some]
  have hmiddle : ((((between hasData).run (team polluted active) (needs hasData) none
      (if polluted then startPolluter else [])).bind fun w =>
        w.run (team polluted active) (needs hasData) none [.measure]).bind fun w =>
          w.run (team polluted active) (needs hasData) none
            (if polluted then stopPolluter else [])) = some (between hasData) := by
    cases polluted <;>
      simp [startPolluter, stopPolluter, between, View.run_cons, View.next, needs, team]
  rw [hmiddle, Option.bind_some, run_none_flatMap hstop]

theorem legal_calcSlope (iters : Nat) :
    Legal (team polluted active) (needs hasData) (calcSlope hasData polluted active iters) := by
  intro i
  have hruns : ∀ n, (between hasData).run (team polluted active) (needs hasData) i
      (List.replicate n (disturbedRun hasData polluted active)).flatten =
        some (between hasData) := by
    intro n
    induction n with
    | zero => rfl
    | succ n ih =>
      have hone : (between hasData).run (team polluted active) (needs hasData) i
          (disturbedRun hasData polluted active) = some (between hasData) := by
        cases i with
        | none => exact run_disturbedRun_none
        | some i => exact run_disturbedRun_some i
      rw [List.replicate_succ, List.flatten_cons, View.run_append, hone]
      exact ih
  have hfirst : View.nothing.run (team polluted active) (needs hasData) i
      (if hasData then [.makeGroup, .makeOwn] else []) = some (between hasData) := by
    cases hasData <;> rfl
  have hlast : (between hasData).run (team polluted active) (needs hasData) i
      (if hasData then [.freeOwn, .freeGroup] else []) = some View.nothing := by
    cases hasData <;> rfl
  rw [calcSlope, View.run_append, View.run_append, hfirst, Option.bind_some, hruns,
    Option.bind_some, hlast]

theorem legal_updateSlopes (w : Workload) :
    Legal (team false active) (needs hasData) (updateSlopes hasData w active) := by
  unfold updateSlopes
  split
  · exact legal_calcSlope _
  · generalize SLOPE_GEN_WSS_SAMPLES = n
    induction n with
    | zero => exact legal_nil
    | succ n ih => exact (legal_calcSlope _).append ih

end

/-! ## Every interleaving -/

/-- The thread has started and has not been told to stop. -/
def Disturbs (h : Helper) : Prop :=
  h.started ∧ h.done = false ∧ (h.thread = .looping ∨ h.thread = .working)

/-- What holds of a state of the main thread and its helpers. -/
structure Orderly (hasData polluted : Bool) (active : Nat) (s : State (Option Nat)) : Prop where
  measured : ∀ rest, s.todo = .measure :: rest →
    (∀ i < active, Disturbs (s.helper (some i))) ∧ (polluted → Disturbs (s.helper none)) ∧
      (hasData → s.own ∧ s.group)
  safe : ∀ i, (s.helper (some i)).thread = .working → hasData → s.data (some i) ∧ s.group
  finishes : ∃ as s', Path Step s as s' ∧ s'.todo = []
  clean : s.todo = [] → ∀ i, (s.helper i).thread = .absent ∧ s.data i = false ∧
    s.group = false ∧ s.own = false

variable {hasData polluted : Bool} {active : Nat} {s : State (Option Nat)}
  {as : List (Option (Option Nat))}

theorem orderly_of_legal {program : List Cmd}
    (hlegal : Legal (team polluted active) (needs hasData) program)
    (h : Path Step (State.start program) as s) : Orderly hasData polluted active s := by
  have hinv := inv_of_path hlegal h
  refine ⟨fun rest htodo => ⟨fun i hi => ?_, fun hp => ?_, fun hn => ?_⟩, fun i hi hn => ?_, ?_,
    fun htodo => hinv.finished htodo⟩
  · exact hinv.measure htodo (by simpa [team] using hi)
  · exact hinv.measure htodo hp
  · obtain ⟨p, hp⟩ := hinv (some 0)
    exact (hp.measure htodo).2 hn
  · exact hinv.working hi hn
  · obtain ⟨bs, s', hpath, -, hend⟩ := hinv.exists_finished
    exact ⟨bs, s', hpath, hend⟩

/-- **`update_slopes` measures under disturbance**: in every interleaving of the main thread and
the invalidators, each measurement takes place while all of them run and none has been told to
stop, no thread works on data that has been freed or not yet made, the calculation can always
be finished, and then every thread has been joined and everything has been freed. -/
theorem updateSlopes_orderly (w : Workload) (numCpus : Int)
    (h : Path Step (State.start (updateSlopes hasData w (activeInvalidators numCpus).toNat)) as s) :
    Orderly hasData false (activeInvalidators numCpus).toNat s :=
  orderly_of_legal (legal_updateSlopes w) h

/-- On three processors: two invalidators are started one after the other, and the first one
is at work when the second one is created. -/
def startSchedule : List (Option (Option Nat)) :=
  [none, none] ++ [none, none, none, some (some 0), none, some (some 0)] ++
    [none, none, none, some (some 1), none, some (some 1)]

/-- The first measurement, with both invalidators at work. -/
theorem updateSlopes_orderly_first :
    ∃ s, (State.start (updateSlopes true arrayWalkWorkload (activeInvalidators 3).toNat)).replay
        startSchedule = some s ∧
      s.todo.head? = some .measure ∧ (∀ i < 2, (s.helper (some i)).thread = .working) ∧
      Orderly true false 2 s := by
  have hrun : ((State.start (updateSlopes true arrayWalkWorkload
      (activeInvalidators 3).toNat)).replay startSchedule).map (fun s =>
        (s.todo.head?, (s.helper (some 0)).thread, (s.helper (some 1)).thread)) =
      some (some .measure, .working, .working) := by decide +kernel
  obtain ⟨s, hs, hstate⟩ := Option.map_eq_some_iff.mp hrun
  obtain ⟨htodo, hthreads⟩ := Prod.mk.inj hstate
  obtain ⟨hfirst, hsecond⟩ := Prod.mk.inj hthreads
  refine ⟨s, hs, htodo, fun i hi => ?_,
    updateSlopes_orderly arrayWalkWorkload 3 (path_of_replay hs)⟩
  obtain rfl | rfl : i = 0 ∨ i = 1 := by omega
  · exact hfirst
  · exact hsecond

/-- **`calc_slope_wcet`** measures while the polluter runs as well. -/
theorem calcSlopeWcet_orderly (numCpus : Int) (iters : Nat)
    (h : Path Step (State.start (calcSlopeWcet hasData (activeInvalidators numCpus).toNat iters))
      as s) :
    Orderly hasData true (activeInvalidators numCpus).toNat s :=
  orderly_of_legal (legal_calcSlope iters) h

/-- The first measurement, with both invalidators and the polluter at work. -/
theorem calcSlopeWcet_orderly_first :
    ∃ s, (State.start (calcSlopeWcet true (activeInvalidators 3).toNat 10)).replay
        (startSchedule ++ [none, none, some none, none, some none]) = some s ∧
      s.todo.head? = some .measure ∧ (∀ i < 2, (s.helper (some i)).thread = .working) ∧
      (s.helper none).thread = .working ∧ Orderly true true 2 s := by
  have hrun : ((State.start (calcSlopeWcet true (activeInvalidators 3).toNat 10)).replay
      (startSchedule ++ [none, none, some none, none, some none])).map (fun s =>
        (s.todo.head?, (s.helper (some 0)).thread, (s.helper (some 1)).thread,
          (s.helper none).thread)) =
      some (some .measure, .working, .working, .working) := by decide +kernel
  obtain ⟨s, hs, hstate⟩ := Option.map_eq_some_iff.mp hrun
  obtain ⟨htodo, hthreads⟩ := Prod.mk.inj hstate
  obtain ⟨hfirst, hthreads⟩ := Prod.mk.inj hthreads
  obtain ⟨hsecond, hpolluter⟩ := Prod.mk.inj hthreads
  refine ⟨s, hs, htodo, fun i hi => ?_, hpolluter, calcSlopeWcet_orderly 3 10 (path_of_replay hs)⟩
  obtain rfl | rfl : i = 0 ∨ i = 1 := by omega
  · exact hfirst
  · exact hsecond

end Chronos.Slope.Measure
