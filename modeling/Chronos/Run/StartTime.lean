import Chronos.Run.Progress

/-!
# The start time of a run

Each group process agrees on a start time with a compare-and-swap on its own
copy of the `test` struct, so the tasks of a group share it. The parent's copy
stays null from the first state to the last, and that is the one which
`print_results` follows in verbose mode.
-/

namespace Chronos.Run

variable {S : Setup} {s s' : State S}

/-- **One start time for the whole run**: all deadlines are computed from it,
and the parent's pointer leads to it when all groups have been joined. -/
def OneStartTime (S : Setup) : Prop :=
  ∀ s : State S, Reachable S s →
    (∀ t u a b, s.deadlineFrom t = some a → s.deadlineFrom u = some b → a = b) ∧
    (s.parent = .print →
      ∃ p, s.globalStart = some p ∧ ∀ t a, s.deadlineFrom t = some a → s.localStart p = a)

/-! ## Within a group -/

/-- What holds of the start times in every state. -/
structure StartInv (s : State S) : Prop where
  parent : s.globalStart = none
  /-- A process's start time is that of a thread which has read its clock. -/
  winner : ∀ l p, s.proc l ≠ .absent → s.procStart l = some p → (s.thread p).Swapped
  /-- A deadline was computed from the start time of the task's own process. -/
  used : ∀ t a, s.deadlineFrom t = some a →
    (s.thread t).Swapped ∧ ∃ p, s.procStart (S.groupLeader t) = some p ∧ s.localStart p = a

theorem StartInv.start : StartInv (State.start S) where
  parent := rfl
  winner _ _ h := absurd rfl h
  used _ _ := nofun

theorem StartInv.parent_step (h : StartInv s) (hs : Step S s s') : s'.globalStart = none := by
  have := h.parent
  cases hs <;> first | exact this | rfl

theorem StartInv.winner_step (h : StartInv s) (hi : Inv s) (hs : Step S s s') :
    ∀ l p, s'.proc l ≠ .absent → s'.procStart l = some p → (s'.thread p).Swapped := by
  intro l p
  have hw := h.winner l p
  have hp := h.parent
  have hf := hi.forked
  have hspawn : ∀ l t : S.Task, s.proc l = .spawn t → S.IsMember l t → s.thread t = .absent :=
    fun _ _ => hi.spawn_absent
  have hspawned : ∀ l, s.proc l = .spawn S.numTasks → s.thread l = .absent :=
    fun _ => hi.spawned_absent
  cases hs <;> simp only [State.setProc, State.setThread, State.startRun, Function.update_apply] <;>
    grind [ThreadPc.Swapped, ProcPc.Started, ParentPc.PastCreate, Option.or_eq_some_iff]

theorem StartInv.used_step (h : StartInv s) (hi : Inv s) (hs : Step S s s') :
    ∀ t a, s'.deadlineFrom t = some a →
      (s'.thread t).Swapped ∧
        ∃ p, s'.procStart (S.groupLeader t) = some p ∧ s'.localStart p = a := by
  intro t a
  have hu := h.used t a
  have hw := h.winner (S.groupLeader t)
  have hst := hi.started t
  have hf := hi.forked
  have hspawn : ∀ l t : S.Task, s.proc l = .spawn t → S.IsMember l t → s.thread t = .absent :=
    fun _ _ => hi.spawn_absent
  have hspawned : ∀ l, s.proc l = .spawn S.numTasks → s.thread l = .absent :=
    fun _ => hi.spawned_absent
  cases hs <;> simp only [State.setProc, State.setThread, State.startRun, Function.update_apply] <;>
    grind [ThreadPc.Swapped, ProcPc.Started, ParentPc.PastCreate, Option.or_eq_some_iff]

theorem StartInv.step (h : StartInv s) (hi : Inv s) (hs : Step S s s') : StartInv s' :=
  ⟨h.parent_step hs, h.winner_step hi hs, h.used_step hi hs⟩

theorem StartInv.of_reachable (h : Reachable S s) : StartInv s := by
  induction h with
  | refl => exact StartInv.start
  | tail hpath hs ih => exact ih.step (Inv.of_reachable hpath) hs

/-- **The tasks of a group agree** on the start time. -/
theorem group_agrees (h : Reachable S s) {t u : S.Task} (hg : S.groupLeader t = S.groupLeader u)
    {a b : Nat} (ha : s.deadlineFrom t = some a) (hb : s.deadlineFrom u = some b) : a = b := by
  have hi := StartInv.of_reachable h
  obtain ⟨-, p, hp, rfl⟩ := hi.used t a ha
  obtain ⟨-, q, hq, rfl⟩ := hi.used u b hb
  rw [← hg, hp] at hq
  cases hq
  rfl

/-! ## The parent -/

/-- A run reaches `print_results` with the parent's start time still null. -/
theorem exists_print_null (S : Setup) :
    ∃ s : State S, Reachable S s ∧ s.parent = .print ∧ s.globalStart = none := by
  obtain ⟨s, hpath, hp, -⟩ := (Inv.start (S := S)).exists_print nofun nofun
  exact ⟨s, hpath, hp, (StartInv.of_reachable hpath).parent⟩

/-- **No run has one start time**: the parent never sees any. Only the tasks of a group agree. -/
theorem not_oneStartTime (S : Setup) :
    ¬OneStartTime S ∧ ∀ s : State S, Reachable S s → ∀ t u : S.Task,
      S.groupLeader t = S.groupLeader u → ∀ a b, s.deadlineFrom t = some a →
        s.deadlineFrom u = some b → a = b := by
  refine ⟨fun h => ?_, fun s hs t u hg a b => group_agrees hs hg⟩
  obtain ⟨s, hs, hp, hnull⟩ := exists_print_null S
  obtain ⟨p, hsome, -⟩ := (h s hs).2 hp
  rw [hnull] at hsome
  cases hsome

/-- One task that releases a single job, in a single run. -/
def soloSetup : Setup := .solo 1 Nat.one_pos

/-- The parent of a single task reaches `print_results` with a null pointer. -/
theorem not_oneStartTime_solo : ¬OneStartTime soloSetup := by
  intro h
  obtain ⟨s, hs, hp, hnull⟩ := exists_print_null soloSetup
  obtain ⟨p, hsome, -⟩ := (h s hs).2 hp
  rw [hnull] at hsome
  cases hsome

end Chronos.Run
