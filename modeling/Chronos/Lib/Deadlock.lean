import Mathlib.Data.Fintype.EquivFin
import Mathlib.Data.Fintype.Lattice
import Chronos.Lib.Nesting
import Chronos.Lib.Path
import Chronos.Lib.Update

/-!
# Processes that hold resources and wait for more

Each process acquires and releases resources in an order of its own, and waits where what it
wants is held. When every process acquires in ascending order of one common rank, something
can always move. Processes that acquire all of a list before they release any of it can come
to a standstill exactly when some of them can be stopped inside their lists such that each of
these wants what another of them has already taken.
-/

namespace Chronos.Lib.Deadlock

variable {ι α β : Type*}

/-- What each process has still to do, and who holds each resource. -/
structure State (ι α : Type*) where
  todo : ι → List (Bracket α)
  holder : α → Option ι

/-- Nothing is held yet. -/
def State.start (program : ι → List (Bracket α)) : State ι α := ⟨program, fun _ => none⟩

section Steps

variable [DecidableEq ι] [DecidableEq α]

/-- A process acquires a resource that is free, or releases one that it holds. -/
inductive Step : State ι α → ι → State ι α → Prop
  | acquire {s : State ι α} {i : ι} {a : α} {rest : List (Bracket α)}
    (htodo : s.todo i = .acquire a :: rest) (hfree : s.holder a = none) :
    Step s i ⟨Function.update s.todo i rest, Function.update s.holder a (some i)⟩
  | release {s : State ι α} {i : ι} {a : α} {rest : List (Bracket α)}
    (htodo : s.todo i = .release a :: rest) (hheld : s.holder a = some i) :
    Step s i ⟨Function.update s.todo i rest, Function.update s.holder a none⟩

/-- Some process is not finished, and none can move. -/
def Stuck (s : State ι α) : Prop := (∃ i, s.todo i ≠ []) ∧ ∀ i s', ¬Step s i s'

/-! ## What is held -/

/-- The stack of what a process holds after one more operation. -/
def after (held : List α) : Bracket α → List α
  | .acquire a => a :: held
  | .release _ => held.tail

/-- `held i` is the stack of what the process `i` holds. -/
structure Inv (s : State ι α) (held : ι → List α) : Prop where
  nested : ∀ i, replay (held i) (s.todo i) = some []
  nodup : ∀ i, (held i).Nodup
  holder_iff : ∀ a i, s.holder a = some i ↔ a ∈ held i

variable {s s' : State ι α} {held : ι → List α} {i j : ι} {a : α} {as : List ι}
  {rest : List (Bracket α)} {program : ι → List (Bracket α)}

theorem replay_release {h h' : List α} (heq : replay h (.release a :: rest) = some h') :
    ∃ tail, h = a :: tail ∧ replay tail rest = some h' := by
  cases h with
  | nil => cases heq
  | cons b tail =>
    rw [replay] at heq
    split at heq
    · next hab => exact ⟨tail, by rw [hab], heq⟩
    · cases heq

omit [DecidableEq ι] in
theorem inv_start (h : ∀ i, Nested (program i)) :
    Inv (State.start program) fun _ => ([] : List α) where
  nested := h
  nodup _ := List.nodup_nil
  holder_iff a i := by simp [State.start]

theorem Inv.step (h : Inv s held) (hs : Step s i s') :
    ∃ b rest, s.todo i = b :: rest ∧ s'.todo = Function.update s.todo i rest ∧
      (∀ a, b = .release a → ∃ tail, held i = a :: tail) ∧
      Inv s' (Function.update held i (after (held i) b)) := by
  cases hs with
  | @acquire a rest htodo hfree =>
    have hnew : ∀ j, a ∉ held j := by
      intro j hj
      rw [(h.holder_iff a j).mpr hj] at hfree
      cases hfree
    refine ⟨_, rest, htodo, rfl, by rintro _ ⟨⟩, ⟨fun j => ?_, fun j => ?_, fun b j => ?_⟩⟩
    · by_cases hj : j = i
      · subst hj
        have hn := h.nested j
        rw [htodo, replay_acquire] at hn
        simpa [after] using hn
      · simpa [hj] using h.nested j
    · by_cases hj : j = i
      · subst hj
        simpa [after] using ⟨hnew j, h.nodup j⟩
      · simpa [hj] using h.nodup j
    · by_cases hb : b = a
      · subst hb
        by_cases hj : j = i
        · simp [hj, after]
        · simpa [hj, Ne.symm hj] using hnew j
      · by_cases hj : j = i
        · subst hj
          simpa [hb, after] using h.holder_iff b j
        · simpa [hb, hj] using h.holder_iff b j
  | @release a rest htodo hheld =>
    have hn := h.nested i
    rw [htodo] at hn
    obtain ⟨tail, htail, hrest⟩ := replay_release hn
    have hnodup := h.nodup i
    rw [htail, List.nodup_cons] at hnodup
    refine ⟨_, rest, htodo, rfl, ?_, ⟨fun j => ?_, fun j => ?_, fun b j => ?_⟩⟩
    · rintro _ ⟨⟩
      exact ⟨tail, htail⟩
    · by_cases hj : j = i
      · subst hj
        simpa [after, htail] using hrest
      · simpa [hj] using h.nested j
    · by_cases hj : j = i
      · subst hj
        simpa [after, htail] using hnodup.2
      · simpa [hj] using h.nodup j
    · have hiff := h.holder_iff b j
      by_cases hb : b = a
      · subst hb
        by_cases hj : j = i
        · subst hj
          simpa [after, htail] using hnodup.1
        · rw [hheld] at hiff
          simpa [hj, Ne.symm hj] using hiff
      · by_cases hj : j = i
        · subst hj
          simpa [hb, after, htail] using hiff
        · simpa [hb, hj] using hiff

/-- A property of what a process holds and has still to do that its own steps keep. -/
structure Kept (P : List α → List (Bracket α) → Prop) : Prop where
  acquire : ∀ {held a rest}, P held (.acquire a :: rest) → P (a :: held) rest
  release : ∀ {held a rest}, P (a :: held) (.release a :: rest) → P held rest

/-- **The invariant rule**: what each process keeps to holds all the time. -/
theorem exists_inv {P : ι → List α → List (Bracket α) → Prop} (hP : ∀ i, Kept (P i))
    (hstart : ∀ i, P i [] (program i)) (hnested : ∀ i, Nested (program i))
    (h : Path Step (State.start program) as s) :
    ∃ held, Inv s held ∧ ∀ i, P i (held i) (s.todo i) := by
  refine h.invariant (P := fun s => ∃ held, Inv s held ∧ ∀ i, P i (held i) (s.todo i))
    ⟨_, inv_start hnested, hstart⟩ ?_
  rintro s i s' ⟨held, hinv, hkeep⟩ hs
  obtain ⟨b, rest, htodo, htodo', hrel, hinv'⟩ := hinv.step hs
  refine ⟨_, hinv', fun j => ?_⟩
  by_cases hj : j = i
  · subst hj
    have hj := hkeep j
    rw [htodo] at hj
    rw [htodo', Function.update_self, Function.update_self]
    cases b with
    | acquire a => exact (hP j).acquire hj
    | release a =>
      obtain ⟨tail, htail⟩ := hrel a rfl
      rw [htail] at hj ⊢
      exact (hP j).release hj
  · simpa [htodo', hj] using hkeep j

/-- A process that cannot move wants something that an unfinished process holds. -/
theorem Inv.blocked (h : Inv s held) (hi : s.todo i ≠ []) (hno : ∀ s', ¬Step s i s') :
    ∃ a rest j, s.todo i = .acquire a :: rest ∧ s.holder a = some j ∧ s.todo j ≠ [] := by
  obtain ⟨b, rest, htodo⟩ := List.exists_cons_of_ne_nil hi
  cases b with
  | acquire a =>
    obtain ⟨j, hj⟩ : ∃ j, s.holder a = some j := by
      rw [← Option.ne_none_iff_exists']
      exact fun hfree => hno _ (.acquire htodo hfree)
    refine ⟨a, rest, j, htodo, hj, fun hdone => ?_⟩
    have hheld := (h.holder_iff a j).mp hj
    have hn := h.nested j
    rw [hdone, replay_nil, Option.some_inj] at hn
    rw [hn] at hheld
    cases hheld
  | release a =>
    have hn := h.nested i
    rw [htodo] at hn
    obtain ⟨tail, htail, -⟩ := replay_release hn
    have hheld : s.holder a = some i := (h.holder_iff a i).mpr (by simp [htail])
    exact absurd (Step.release htodo hheld) (hno _)

/-! ## A common order -/

/-- Everything that is acquired has a greater rank than all that is held. -/
def Ascending [LT β] (rank : α → β) : List α → List (Bracket α) → Prop
  | _, [] => True
  | held, .acquire a :: rest => (∀ b ∈ held, rank b < rank a) ∧ Ascending rank (a :: held) rest
  | held, .release _ :: rest => Ascending rank held.tail rest

omit [DecidableEq α] in
theorem kept_ascending [LT β] (rank : α → β) : Kept (Ascending rank) :=
  ⟨fun h => h.2, fun h => h⟩

section Order

variable [Preorder β] {rank : α → β} {l h : List α}

omit [DecidableEq α] in
theorem ascending_acquires (hl : l.Pairwise (rank · < rank ·))
    (habove : ∀ b ∈ h, ∀ a ∈ l, rank b < rank a) :
    Ascending rank h (l.map .acquire ++ rest) ↔ Ascending rank (l.reverse ++ h) rest := by
  induction l generalizing h with
  | nil => rfl
  | cons a l ih =>
    rw [List.pairwise_cons] at hl
    have hnext : ∀ b ∈ a :: h, ∀ c ∈ l, rank b < rank c := by
      intro b hb c hc
      rcases List.mem_cons.mp hb with rfl | hb
      · exact hl.1 c hc
      · exact habove b hb c (List.mem_cons_of_mem _ hc)
    rw [List.map_cons, List.cons_append, Ascending, ih hl.2 hnext, List.reverse_cons,
      List.append_assoc, List.singleton_append]
    exact and_iff_right fun b hb => habove b hb a List.mem_cons_self

omit [DecidableEq α] in
theorem ascending_releases :
    Ascending rank (l ++ h) (l.map .release ++ rest) ↔ Ascending rank h rest := by
  induction l with
  | nil => rfl
  | cons a l ih => simpa [Ascending] using ih

omit [DecidableEq α] in
/-- One round of a list in ascending order. -/
theorem ascending_round (hl : l.Pairwise (rank · < rank ·)) :
    Ascending rank [] (l.map .acquire ++ l.reverse.map .release ++ rest) ↔
      Ascending rank [] rest := by
  rw [List.append_assoc, ascending_acquires hl (by simp), ascending_releases]

end Order

/-- **Ordered acquisition**: while a process is unfinished, some process can move. -/
theorem Inv.exists_step [Finite ι] [LinearOrder β] {rank : α → β} (h : Inv s held)
    (hasc : ∀ i, Ascending rank (held i) (s.todo i)) (hi : s.todo i ≠ []) :
    ∃ j s', Step s j s' := by
  by_contra hno
  push Not at hno
  have hblocked : ∀ j : {j // s.todo j ≠ []}, ∃ a rest k, s.todo j = .acquire a :: rest ∧
      s.holder a = some k ∧ s.todo k ≠ [] := fun j => h.blocked j.2 (hno j)
  choose wants rest by_ htodo hholder hby using hblocked
  have : Nonempty {j // s.todo j ≠ []} := ⟨i, hi⟩
  obtain ⟨top, htop⟩ := Finite.exists_max fun j => rank (wants j)
  -- the holder of what the topmost process wants, wants something of a higher rank
  have hasc' := hasc (by_ top)
  rw [htodo ⟨by_ top, hby top⟩] at hasc'
  have hlt := hasc'.1 _ ((h.holder_iff _ _).mp (hholder top))
  exact absurd (htop ⟨by_ top, hby top⟩) (not_le.mpr hlt)

/-! ## The end -/

/-- How many operations are left. -/
def State.left [Fintype ι] (s : State ι α) : Nat := ∑ i, (s.todo i).length

theorem Step.left_eq [Fintype ι] (hs : Step s i s') : s.left = s'.left + 1 := by
  have key : ∀ b rest, s.todo i = b :: rest → s'.todo = Function.update s.todo i rest →
      s.left = s'.left + 1 := by
    intro b rest htodo htodo'
    have hsum := sum_update (fun _ => List.length) s.todo i rest
    rw [htodo, List.length_cons] at hsum
    rw [State.left, State.left, htodo']
    omega
  cases hs with
  | acquire htodo _ => exact key _ _ htodo rfl
  | release htodo _ => exact key _ _ htodo rfl

/-- A run is as long as the operations it has done. -/
theorem length_add_left [Fintype ι] (h : Path Step s as s') : as.length + s'.left = s.left := by
  induction h with
  | nil => simp
  | snoc _ hs ih =>
    rw [hs.left_eq] at ih
    rw [List.length_append, List.length_singleton]
    omega

/-- Every run can be continued until nothing can move. -/
theorem exists_maximal [Fintype ι] (s : State ι α) :
    ∃ as s', Path Step s as s' ∧ ∀ i s'', ¬Step s' i s'' := by
  generalize hn : s.left = n
  induction n generalizing s with
  | zero =>
    refine ⟨[], s, .nil, fun i s' hs => ?_⟩
    have := hs.left_eq
    omega
  | succ n ih =>
    by_cases hmove : ∃ i s', Step s i s'
    · obtain ⟨i, s', hs⟩ := hmove
      have := hs.left_eq
      obtain ⟨as, s'', hpath, hend⟩ := ih s' (by omega)
      exact ⟨_, s'', (Path.single hs).trans hpath, hend⟩
    · push Not at hmove
      exact ⟨[], s, .nil, hmove⟩

end Steps

end Chronos.Lib.Deadlock
