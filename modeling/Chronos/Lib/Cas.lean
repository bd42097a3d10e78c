import Mathlib.Data.List.Perm.Basic
import Mathlib.Logic.Function.Iterate
import Chronos.Lib.Path

/-!
# Retry loops on a shared cell

Any number of threads share one cell. A call reads the cell, computes a new value
from what it has read, and stores it with a compare-and-swap, which succeeds when
the cell holds the value that was read. If it does not, the call starts over. In
between, the cell may have changed and changed back.

Whatever the interleaving, a call takes effect at once, when its compare-and-swap
succeeds: the calls executed one after the other in this order leave the same cell
and return the same values.
-/

namespace Chronos.Lib.Cas

variable {ι β α : Type*}

/-- Where a thread is in its call of the operation `op`. -/
inductive Pc (β α : Type*)
  | idle
  | entered (op : β)
  | read (op : β) (value : α)
  | computed (op : β) (value new : α)
  | stored (op : β) (new : α)
  deriving DecidableEq

structure State (ι β α : Type*) where
  cell : α
  pc : ι → Pc β α

/-- What the thread `i` does in a step. -/
inductive Action (ι β α : Type*)
  | call (i : ι) (op : β)
  | read (i : ι)
  | compute (i : ι)
  | retry (i : ι)
  | swap (i : ι) (op : β) (new : α)
  | ret (i : ι) (op : β) (new : α)
  deriving DecidableEq

/-- No call has been made yet. -/
def State.start (c : α) : State ι β α := ⟨c, fun _ => .idle⟩

/-- An operation executed on a value returns its new value, if it has one. -/
abbrev Semantics (β α : Type*) := β → α → Option α

section Steps

variable [DecidableEq ι]

def State.goto (s : State ι β α) (i : ι) (pc : Pc β α) : State ι β α :=
  { s with pc := Function.update s.pc i pc }

/-- A step of one thread. -/
inductive Step (apply : Semantics β α) : State ι β α → Action ι β α → State ι β α → Prop
  | call {s} (i : ι) (op : β) (hpc : s.pc i = .idle) :
    Step apply s (.call i op) (s.goto i (.entered op))
  | read {s} (i : ι) {op : β} (hpc : s.pc i = .entered op) :
    Step apply s (.read i) (s.goto i (.read op s.cell))
  | compute {s} (i : ι) {op : β} {value new : α} (hpc : s.pc i = .read op value)
    (hnew : apply op value = some new) :
    Step apply s (.compute i) (s.goto i (.computed op value new))
  | retry {s} (i : ι) {op : β} {value new : α} (hpc : s.pc i = .computed op value new)
    (hne : s.cell ≠ value) : Step apply s (.retry i) (s.goto i (.entered op))
  | swap {s} (i : ι) {op : β} {value new : α} (hpc : s.pc i = .computed op value new)
    (heq : s.cell = value) :
    Step apply s (.swap i op new) { s.goto i (.stored op new) with cell := new }
  | ret {s} (i : ι) {op : β} {new : α} (hpc : s.pc i = .stored op new) :
    Step apply s (.ret i op new) (s.goto i .idle)

end Steps

/-! ## Histories -/

/-- A call, with the value it stores and returns. -/
structure Done (ι β α : Type*) where
  thread : ι
  op : β
  value : α
  deriving DecidableEq

/-- What can be seen of a call. -/
inductive Event (β α : Type*)
  | call (op : β)
  | swap (op : β) (new : α)
  | ret (op : β) (new : α)
  deriving DecidableEq

namespace Action

def swapped : Action ι β α → Option (Done ι β α)
  | swap i op new => some ⟨i, op, new⟩
  | _ => none

def returned : Action ι β α → Option (Done ι β α)
  | ret i op new => some ⟨i, op, new⟩
  | _ => none

def thread : Action ι β α → ι
  | call i _ | read i | compute i | retry i | swap i _ _ | ret i _ _ => i

/-- What an action shows, and of which thread. -/
def event : Action ι β α → Option (ι × Event β α)
  | call i op => some (i, .call op)
  | swap i op new => some (i, .swap op new)
  | ret i op new => some (i, .ret op new)
  | _ => none

end Action

/-- The calls in the order of their successful compare-and-swaps. -/
def swaps (as : List (Action ι β α)) : List (Done ι β α) := as.filterMap Action.swapped

/-- The completed calls, in the order of their returns. -/
def returns (as : List (Action ι β α)) : List (Done ι β α) := as.filterMap Action.returned

/-- What can be seen of the calls of the thread `i`. -/
def events [DecidableEq ι] (i : ι) (as : List (Action ι β α)) : List (Event β α) :=
  ((as.filterMap Action.event).filter (·.1 = i)).map Prod.snd

/-- The operations executed one after the other from `c`, with the values returned. -/
def results (apply : Semantics β α) : α → List β → Option (List α)
  | _, [] => some []
  | c, op :: ops => do
    let new ← apply op c
    let rest ← results apply new ops
    return new :: rest

/-- What can be seen of a completed call. -/
def completed (done : Done ι β α) : List (Event β α) :=
  [.call done.op, .swap done.op done.value, .ret done.op done.value]

/-- What can be seen of a call that has not returned. -/
def pending : Pc β α → List (Event β α)
  | .idle => []
  | .entered op | .read op _ | .computed op _ _ => [.call op]
  | .stored op new => [.call op, .swap op new]

/-- **Linearizable**: the operations, executed one after the other in the order of
their compare-and-swaps, store and return the same values; and each call stores once,
after it was made and before it returns. -/
structure Linearizable [DecidableEq ι] (apply : Semantics β α) (c : α)
    (as : List (Action ι β α)) (s : State ι β α) : Prop where
  sequential : results apply c ((swaps as).map Done.op) = some ((swaps as).map Done.value)
  cell : s.cell = ((swaps as).map Done.value).getLastD c
  calls : ∀ i, events i as =
    ((returns as).filter (·.thread = i)).flatMap completed ++ pending (s.pc i)

/-! ## The invariant -/

section

variable {apply : Semantics β α} {c v : α} {op : β} {ops : List β} {vs : List α}

theorem results_snoc (h : results apply c ops = some vs) (hv : apply op (vs.getLastD c) = some v) :
    results apply c (ops ++ [op]) = some (vs ++ [v]) := by
  induction ops generalizing c vs with
  | nil =>
    cases h
    rw [List.getLastD_nil] at hv
    simp [results, hv]
  | cons o ops ih =>
    simp only [results, Option.bind_eq_bind, Option.bind_eq_some_iff, Option.pure_def,
      Option.some.injEq] at h
    obtain ⟨new, hnew, rest, hrest, rfl⟩ := h
    rw [List.getLastD_cons] at hv
    simp [results, hnew, ih hrest hv]

/-- One operation over and over again. -/
theorem getLastD_of_results {g : α → α} (hg : ∀ op ∈ ops, ∀ c, apply op c = some (g c))
    (h : results apply c ops = some vs) : vs.getLastD c = g^[ops.length] c := by
  induction ops generalizing c vs with
  | nil =>
    cases h
    rfl
  | cons o ops ih =>
    simp only [results, Option.bind_eq_bind, Option.bind_eq_some_iff, Option.pure_def,
      Option.some.injEq] at h
    obtain ⟨new, hnew, rest, hrest, rfl⟩ := h
    rw [hg o List.mem_cons_self, Option.some.injEq] at hnew
    subst hnew
    rw [List.getLastD_cons, ih (fun op hop => hg op (List.mem_cons_of_mem _ hop)) hrest]
    rfl

variable {as : List (Action ι β α)} {a : Action ι β α}

theorem swaps_snoc : swaps (as ++ [a]) = swaps as ++ a.swapped.toList := by
  unfold swaps
  rw [List.filterMap_append]
  cases h : a.swapped <;> simp [h]

theorem returns_snoc : returns (as ++ [a]) = returns as ++ a.returned.toList := by
  unfold returns
  rw [List.filterMap_append]
  cases h : a.returned <;> simp [h]

variable [DecidableEq ι] {s s' : State ι β α}

theorem events_snoc (i : ι) : events i (as ++ [a]) =
    events i as ++ (a.event.toList.filter (·.1 = i)).map Prod.snd := by
  unfold events
  rw [List.filterMap_append, List.filter_append, List.map_append]
  cases h : a.event <;> simp [h]

/-- What carries the induction: besides, a computed value is that of the operation
on the value read. -/
structure Inv (apply : Semantics β α) (c : α) (as : List (Action ι β α)) (s : State ι β α) : Prop
    extends Linearizable apply c as s where
  computed : ∀ i op value new, s.pc i = .computed op value new → apply op value = some new

theorem Inv.start (c : α) : Inv apply c [] (State.start c : State ι β α) where
  sequential := rfl
  cell := rfl
  calls _ := rfl
  computed _ _ _ _ h := by cases h

/-- A step of one thread shows nothing of another. -/
theorem Step.shows_other (hs : Step apply s a s') {i : ι} (hne : a.thread ≠ i) :
    a.event.toList.filter (·.1 = i) = [] ∧ a.returned.toList.filter (·.thread = i) = [] ∧
      s'.pc i = s.pc i := by
  refine ⟨?_, ?_, ?_⟩
  · cases a <;> simp_all [Action.event, Action.thread]
  · cases a <;> simp_all [Action.returned, Action.thread]
  · cases hs <;> exact Function.update_of_ne (Ne.symm hne) _ _

/-- A step shows what the call of the thread then has more to show. -/
theorem Step.shows (hs : Step apply s a s') (i : ι) :
    pending (s.pc i) ++ (a.event.toList.filter (·.1 = i)).map Prod.snd =
      (a.returned.toList.filter (·.thread = i)).flatMap completed ++ pending (s'.pc i) := by
  by_cases hi : a.thread = i
  · subst hi
    cases hs with
    | ret i hpc =>
      simp [Action.thread, Action.event, Action.returned, State.goto, hpc, pending, completed]
    | call i op hpc | read i hpc | compute i hpc | retry i hpc | swap i hpc =>
      simp [Action.thread, Action.event, Action.returned, State.goto, hpc, pending]
  · obtain ⟨hevent, hreturned, hpc⟩ := hs.shows_other hi
    simp [hevent, hreturned, hpc]

theorem Inv.step (h : Inv apply c as s) (hs : Step apply s a s') : Inv apply c (as ++ [a]) s' where
  calls i := by
    rw [events_snoc, returns_snoc, List.filter_append, List.flatMap_append, h.calls i,
      List.append_assoc, List.append_assoc, hs.shows i]
  sequential := by
    rw [swaps_snoc]
    cases hs with
    | swap i hpc heq =>
      have hnew := h.computed i _ _ _ hpc
      rw [← heq, h.cell] at hnew
      simpa [Action.swapped] using results_snoc h.sequential hnew
    | _ => simpa [Action.swapped] using h.sequential
  cell := by
    rw [swaps_snoc]
    cases hs with
    | swap => simp [Action.swapped]
    | _ => simpa [Action.swapped, State.goto] using h.cell
  computed := by
    intro i op value new
    have hi := h.computed i op value new
    cases hs with
    | compute j hpc hnew =>
      simp only [State.goto, Function.update_apply]
      split
      · rintro ⟨rfl, rfl, rfl⟩
        exact hnew
      · exact hi
    | _ =>
      simp only [State.goto, Function.update_apply]
      split
      · simp
      · exact hi

/-- **A retry loop is linearizable**, whatever the interleaving. -/
theorem linearizable (h : Path (Step apply) (State.start c) as s) : Linearizable apply c as s := by
  have hinv : Inv apply c as s := by
    induction h with
    | nil => exact .start c
    | snoc _ hs ih => exact ih.step hs
  exact hinv.toLinearizable

end

/-! ## When all calls have returned -/

section Quiet

variable [DecidableEq ι] {apply : Semantics β α} {c : α} {as : List (Action ι β α)}
  {s : State ι β α}

/-- The call of an event that stores. -/
def Event.swapped (i : ι) : Event β α → Option (Done ι β α)
  | swap op new => some ⟨i, op, new⟩
  | _ => none

theorem swaps_eq_events (i : ι) (as : List (Action ι β α)) :
    (swaps as).filter (·.thread = i) = (events i as).filterMap (Event.swapped i) := by
  induction as using List.reverseRecOn with
  | nil => rfl
  | append_singleton as a ih =>
    rw [swaps_snoc, events_snoc, List.filter_append, List.filterMap_append, ih]
    congr 1
    by_cases hi : a.thread = i
    · subst hi
      cases a <;> simp [Action.thread, Action.swapped, Action.event, Event.swapped]
    · cases a <;> simp_all [Action.thread, Action.swapped, Action.event]

omit [DecidableEq ι] in
theorem filterMap_swapped_completed (i : ι) (dones : List (Done ι β α)) :
    (dones.flatMap completed).filterMap (Event.swapped i) =
      dones.map fun d => { d with thread := i } := by
  induction dones with
  | nil => rfl
  | cons d dones ih =>
    rw [List.flatMap_cons, List.filterMap_append, ih]
    rfl

/-- **No update is lost or made twice**: when no call is under way, the calls that
have stored are those that have returned, and each thread's are in its order. -/
theorem Linearizable.swaps_eq_returns (h : Linearizable apply c as s) {i : ι}
    (hidle : s.pc i = .idle) :
    (swaps as).filter (·.thread = i) = (returns as).filter (·.thread = i) := by
  rw [swaps_eq_events, h.calls i, hidle, pending, List.append_nil, filterMap_swapped_completed,
    List.map_congr_left (g := id), List.map_id]
  intro d hd
  have hthread : d.thread = i := by simpa using (List.mem_filter.mp hd).2
  rw [← hthread]
  rfl

theorem Linearizable.perm [DecidableEq β] [DecidableEq α] (h : Linearizable apply c as s)
    (hidle : ∀ i, s.pc i = .idle) : (returns as).Perm (swaps as) := by
  refine List.perm_iff_count.mpr fun d => ?_
  have hfilter := congrArg (List.count d) (h.swaps_eq_returns (hidle d.thread))
  rwa [List.count_filter (by simp), List.count_filter (by simp), eq_comm] at hfilter

end Quiet

end Chronos.Lib.Cas
