import Mathlib.Data.List.Basic
import Mathlib.Logic.Function.Basic
import Chronos.Lib.Path

/-!
# Threads that are started and stopped by flags

A main thread starts helpers and stops them again. A helper sets its flag `started`, then works
until its flag `done` is set, and exits; the main thread waits for `started` before it goes on,
and for the exit after it has set `done`. Each helper works on data of its own and on data of
the group, which the main thread allocates and frees.

The main thread's commands are checked one helper at a time (`Legal`). Commands that pass can
be executed to their end from every state that any interleaving reaches, and no thread ever
works on data that is not there.
-/

namespace Chronos.Lib.Helpers

/-- A command of the main thread. `clear` resets both flags of a helper. -/
inductive Command (ι : Type*)
  | makeGroup
  | freeGroup
  | makeOwn
  | freeOwn
  | clear (i : ι)
  | makeData (i : ι)
  | create (i : ι)
  | awaitStarted (i : ι)
  | setDone (i : ι)
  | join (i : ι)
  | freeData (i : ι)
  | measure
  deriving DecidableEq, Repr

/-- Where a helper's thread is. `looping` is before the check of `done`. -/
inductive Thread
  | absent
  | created
  | looping
  | working
  | exited
  deriving DecidableEq, Repr

structure Helper where
  thread : Thread
  started : Bool
  done : Bool
  deriving DecidableEq, Repr

/-- `todo` is what the main thread has still to do; the flags `group`, `own` and `data` say what
is allocated. -/
structure State (ι : Type*) where
  todo : List (Command ι)
  helper : ι → Helper
  data : ι → Bool
  group : Bool
  own : Bool

/-- A program before its first command. -/
def State.start {ι : Type*} (program : List (Command ι)) : State ι :=
  ⟨program, fun _ => ⟨.absent, false, false⟩, fun _ => false, false, false⟩

/-- A step of a helper's thread. -/
def Helper.next (h : Helper) : Option Helper :=
  match h.thread with
  | .absent => none
  | .created => some { h with thread := .looping, started := true }
  | .looping => some { h with thread := if h.done then .exited else .working }
  | .working => some { h with thread := .looping }
  | .exited => none

variable {ι : Type*} [DecidableEq ι]

def State.setHelper (s : State ι) (i : ι) (h : Helper) : State ι :=
  { s with helper := Function.update s.helper i h }

/-- A command of the main thread, `none` where it must wait. -/
def exec (s : State ι) : Command ι → Option (State ι)
  | .makeGroup => some { s with group := true }
  | .freeGroup => some { s with group := false }
  | .makeOwn => some { s with own := true }
  | .freeOwn => some { s with own := false }
  | .clear i => some (s.setHelper i { s.helper i with started := false, done := false })
  | .makeData i => some { s with data := Function.update s.data i true }
  | .create i =>
    if (s.helper i).thread = .absent then some (s.setHelper i { s.helper i with thread := .created })
    else none
  | .awaitStarted i => if (s.helper i).started then some s else none
  | .setDone i => some (s.setHelper i { s.helper i with done := true })
  | .join i =>
    if (s.helper i).thread = .exited then some (s.setHelper i { s.helper i with thread := .absent })
    else none
  | .freeData i => some { s with data := Function.update s.data i false }
  | .measure => some s

/-- A step of the main thread (`none`) or of a helper. -/
inductive Step : State ι → Option ι → State ι → Prop
  | main {s s' : State ι} {c : Command ι} {rest : List (Command ι)} (htodo : s.todo = c :: rest)
    (hexec : exec s c = some s') : Step s none { s' with todo := rest }
  | helper {s : State ι} {i : ι} {h : Helper} (hnext : (s.helper i).next = some h) :
    Step s (some i) (s.setHelper i h)

/-- The step that a thread makes, if it can make one. -/
def State.next (s : State ι) : Option ι → Option (State ι)
  | none =>
    match s.todo with
    | [] => none
    | c :: rest => (exec s c).map fun s' => { s' with todo := rest }
  | some i => (s.helper i).next.map (s.setHelper i)

theorem step_of_next {s s' : State ι} {i : Option ι} (h : s.next i = some s') : Step s i s' := by
  cases i with
  | none =>
    cases htodo : s.todo with
    | nil =>
      rw [State.next, htodo] at h
      cases h
    | cons c rest =>
      rw [State.next, htodo] at h
      obtain ⟨s₁, hexec, rfl⟩ := Option.map_eq_some_iff.mp h
      exact .main htodo hexec
  | some i =>
    obtain ⟨h', hnext, rfl⟩ := Option.map_eq_some_iff.mp h
    exact .helper hnext

/-- What the threads make of a state when they make steps in this order. -/
def State.replay (s : State ι) (schedule : List (Option ι)) : Option (State ι) :=
  schedule.foldlM State.next s

theorem path_of_replay {s s' : State ι} {schedule : List (Option ι)}
    (h : s.replay schedule = some s') : Path Step s schedule s' :=
  Path.of_foldlM step_of_next h

/-! ## The view of one helper -/

/-- What the main thread has done with a helper. -/
inductive Phase
  | off
  | cleared
  | created
  | running
  | stopping
  deriving DecidableEq, Repr

/-- The phase of a helper, and what is allocated. -/
structure View where
  phase : Phase
  data : Bool
  group : Bool
  own : Bool
  deriving DecidableEq, Repr

/-- A helper has been created and not joined. -/
def Phase.Live (p : Phase) : Prop := p = .created ∨ p = .running ∨ p = .stopping

section

-- the helpers that must run during a measurement, and those whose work needs the data
variable (team needs : ι → Bool)

/-- The view after a command, `none` where the command is not allowed. -/
def View.next (i : ι) (v : View) : Command ι → Option View
  | .makeGroup => if v.group then none else some { v with group := true }
  | .freeGroup => if v.group ∧ v.phase = .off then some { v with group := false } else none
  | .makeOwn => if v.own then none else some { v with own := true }
  | .freeOwn => if v.own then some { v with own := false } else none
  | .clear j =>
    if j = i then if v.phase = .off then some { v with phase := .cleared } else none else some v
  | .makeData j =>
    if j = i then if v.data then none else some { v with data := true } else some v
  | .create j =>
    if j = i then
      if v.phase = .cleared ∧ (needs i → v.data ∧ v.group) then some { v with phase := .created }
      else none
    else some v
  | .awaitStarted j =>
    if j = i then if v.phase = .created then some { v with phase := .running } else none
    else some v
  | .setDone j =>
    if j = i then if v.phase = .running then some { v with phase := .stopping } else none
    else some v
  | .join j =>
    if j = i then if v.phase = .stopping then some { v with phase := .off } else none else some v
  | .freeData j =>
    if j = i then if v.data ∧ v.phase = .off then some { v with data := false } else none
    else some v
  | .measure =>
    if (team i → v.phase = .running) ∧ (needs i → v.own ∧ v.group) then some v else none

def View.run (i : ι) (v : View) (program : List (Command ι)) : Option View :=
  program.foldlM (View.next team needs i) v

/-- Nothing of a helper is left, nothing is allocated. -/
def View.nothing : View := ⟨.off, false, false, false⟩

/-- The commands are allowed for every helper, and leave nothing behind. -/
def Legal (program : List (Command ι)) : Prop :=
  ∀ i, View.nothing.run team needs i program = some View.nothing

variable {team needs}

@[simp] theorem View.run_nil (i : ι) (v : View) : v.run team needs i [] = some v := rfl

theorem View.run_cons (i : ι) (v : View) (c : Command ι) (cs : List (Command ι)) :
    v.run team needs i (c :: cs) =
      (v.next team needs i c).bind fun w => w.run team needs i cs := rfl

theorem View.run_append (i : ι) (v : View) (cs ds : List (Command ι)) :
    v.run team needs i (cs ++ ds) = (v.run team needs i cs).bind fun w => w.run team needs i ds :=
  List.foldlM_append

theorem Legal.append {cs ds : List (Command ι)} (h : Legal team needs cs)
    (h' : Legal team needs ds) : Legal team needs (cs ++ ds) := by
  intro i
  rw [View.run_append, h i]
  exact h' i

theorem legal_nil : Legal team needs ([] : List (Command ι)) := fun _ => rfl

end

/-! ## The invariant -/

/-- What a helper may be doing in a phase. -/
def Fits : Phase → Helper → Prop
  | .off, h => h.thread = .absent
  | .cleared, h => h.thread = .absent ∧ h.started = false ∧ h.done = false
  | .created, h => h.done = false ∧ (h.thread = .created ∧ h.started = false ∨
      (h.thread = .looping ∨ h.thread = .working) ∧ h.started = true)
  | .running, h => h.done = false ∧ h.started = true ∧
      (h.thread = .looping ∨ h.thread = .working)
  | .stopping, h => h.done = true ∧
      (h.thread = .looping ∨ h.thread = .working ∨ h.thread = .exited)

variable {team needs : ι → Bool}

/-- What the main thread has still to do is allowed after what it has done with the helper. -/
structure InvAt (team needs : ι → Bool) (s : State ι) (i : ι) (p : Phase) : Prop where
  fits : Fits p (s.helper i)
  data : p.Live → needs i → s.data i ∧ s.group
  run : (View.mk p (s.data i) s.group s.own).run team needs i s.todo = some View.nothing

def Inv (team needs : ι → Bool) (s : State ι) : Prop :=
  ∀ i, ∃ p, InvAt team needs s i p

theorem inv_start {program : List (Command ι)} (h : Legal team needs program) :
    Inv team needs (State.start program) :=
  fun i => ⟨.off, ⟨rfl, (by rintro (h | h | h) <;> cases h), h i⟩⟩

omit [DecidableEq ι] in
/-- A step of the helper's thread stays within its phase. -/
theorem Fits.next {p : Phase} {h h' : Helper} (hfits : Fits p h) (hnext : h.next = some h') :
    Fits p h' := by
  obtain ⟨thread, started, done⟩ := h
  cases p <;> cases thread <;> simp_all [Fits, Helper.next] <;> cases hnext <;> simp_all


variable {s s' : State ι} {i : ι} {c : Command ι} {p : Phase} {w : View}
  {rest : List (Command ι)}

/-- **One command**: an allowed command that is executed keeps the helper in step with its
view. -/
theorem next_exec (hfits : Fits p (s.helper i)) (hdata : p.Live → needs i → s.data i ∧ s.group)
    (hnext : (View.mk p (s.data i) s.group s.own).next team needs i c = some w)
    (hexec : exec s c = some s') :
    ∃ p', w = ⟨p', s'.data i, s'.group, s'.own⟩ ∧ Fits p' (s'.helper i) ∧
      (p'.Live → needs i → s'.data i ∧ s'.group) := by
  cases c with
  | makeGroup =>
    simp only [View.next] at hnext
    split at hnext <;> cases hnext
    cases hexec
    exact ⟨p, rfl, hfits, fun hl hn => ⟨(hdata hl hn).1, rfl⟩⟩
  | freeGroup =>
    simp only [View.next] at hnext
    split at hnext <;> cases hnext
    next h =>
      cases hexec
      refine ⟨p, rfl, hfits, fun hl => ?_⟩
      rw [h.2] at hl
      rcases hl with hl | hl | hl <;> cases hl
  | makeOwn =>
    simp only [View.next] at hnext
    split at hnext <;> cases hnext
    cases hexec
    exact ⟨p, rfl, hfits, hdata⟩
  | freeOwn =>
    simp only [View.next] at hnext
    split at hnext <;> cases hnext
    cases hexec
    exact ⟨p, rfl, hfits, hdata⟩
  | clear j =>
    cases hexec
    simp only [View.next] at hnext
    by_cases hj : j = i
    · subst hj
      rw [if_pos rfl] at hnext
      split at hnext <;> cases hnext
      next h =>
        rw [h] at hfits
        refine ⟨.cleared, rfl, ?_, by rintro (hl | hl | hl) <;> cases hl⟩
        simpa [State.setHelper, Fits] using hfits
    · rw [if_neg hj] at hnext
      cases hnext
      exact ⟨p, rfl, by simpa [State.setHelper, Ne.symm hj] using hfits, hdata⟩
  | makeData j =>
    cases hexec
    simp only [View.next] at hnext
    by_cases hj : j = i
    · subst hj
      rw [if_pos rfl] at hnext
      split at hnext <;> cases hnext
      exact ⟨p, by simp, hfits, fun hl hn => ⟨by simp, (hdata hl hn).2⟩⟩
    · rw [if_neg hj] at hnext
      cases hnext
      exact ⟨p, by simp [Ne.symm hj], hfits, by simpa [Ne.symm hj] using hdata⟩
  | create j =>
    simp only [exec] at hexec
    split at hexec <;> cases hexec
    simp only [View.next] at hnext
    by_cases hj : j = i
    · subst hj
      rw [if_pos rfl] at hnext
      split at hnext <;> cases hnext
      next h =>
        rw [h.1] at hfits
        refine ⟨.created, rfl, ?_, fun _ => h.2⟩
        simp [State.setHelper, Fits, hfits.2.1, hfits.2.2]
    · rw [if_neg hj] at hnext
      cases hnext
      exact ⟨p, rfl, by simpa [State.setHelper, Ne.symm hj] using hfits, hdata⟩
  | awaitStarted j =>
    simp only [exec] at hexec
    split at hexec <;> cases hexec
    next hstarted =>
    simp only [View.next] at hnext
    by_cases hj : j = i
    · subst hj
      rw [if_pos rfl] at hnext
      split at hnext <;> cases hnext
      next h =>
        have h' : p = .created := h
        subst h'
        refine ⟨.running, rfl, ⟨hfits.1, hstarted, ?_⟩, fun _ => hdata (.inl rfl)⟩
        rcases hfits.2 with ⟨-, hnot⟩ | ⟨hthread, -⟩
        · rw [hnot] at hstarted
          cases hstarted
        · exact hthread
    · rw [if_neg hj] at hnext
      cases hnext
      exact ⟨p, rfl, hfits, hdata⟩
  | setDone j =>
    cases hexec
    simp only [View.next] at hnext
    by_cases hj : j = i
    · subst hj
      rw [if_pos rfl] at hnext
      split at hnext <;> cases hnext
      next h =>
        have h' : p = .running := h
        subst h'
        refine ⟨.stopping, rfl, ?_, fun _ => hdata (.inr (.inl rfl))⟩
        rcases hfits.2.2 with hthread | hthread <;> simp [State.setHelper, Fits, hthread]
    · rw [if_neg hj] at hnext
      cases hnext
      exact ⟨p, rfl, by simpa [State.setHelper, Ne.symm hj] using hfits, hdata⟩
  | join j =>
    simp only [exec] at hexec
    split at hexec <;> cases hexec
    simp only [View.next] at hnext
    by_cases hj : j = i
    · subst hj
      rw [if_pos rfl] at hnext
      split at hnext <;> cases hnext
      exact ⟨.off, rfl, by simp [State.setHelper, Fits], by rintro (hl | hl | hl) <;> cases hl⟩
    · rw [if_neg hj] at hnext
      cases hnext
      exact ⟨p, rfl, by simpa [State.setHelper, Ne.symm hj] using hfits, hdata⟩
  | freeData j =>
    cases hexec
    simp only [View.next] at hnext
    by_cases hj : j = i
    · subst hj
      rw [if_pos rfl] at hnext
      split at hnext <;> cases hnext
      next h =>
        refine ⟨p, by simp, hfits, fun hl => ?_⟩
        rw [h.2] at hl
        rcases hl with hl | hl | hl <;> cases hl
    · rw [if_neg hj] at hnext
      cases hnext
      exact ⟨p, by simp [Ne.symm hj], hfits, by simpa [Ne.symm hj] using hdata⟩
  | measure =>
    cases hexec
    simp only [View.next] at hnext
    split at hnext <;> cases hnext
    exact ⟨p, rfl, hfits, hdata⟩

theorem InvAt.next_head (h : InvAt team needs s i p) (htodo : s.todo = c :: rest) :
    ∃ w, (View.mk p (s.data i) s.group s.own).next team needs i c = some w ∧
      w.run team needs i rest = some View.nothing := by
  have hrun := h.run
  rw [htodo, View.run_cons, Option.bind_eq_some_iff] at hrun
  exact hrun

/-- Every step of every thread keeps the invariant. -/
theorem Inv.step {a : Option ι} (h : Inv team needs s) (hs : Step s a s') :
    Inv team needs s' := by
  cases hs with
  | @main s'' c rest htodo hexec =>
    intro i
    obtain ⟨p, hp⟩ := h i
    obtain ⟨w, hw, hrest⟩ := hp.next_head htodo
    obtain ⟨p', rfl, hfits, hdata⟩ := next_exec hp.fits hp.data hw hexec
    exact ⟨p', ⟨hfits, hdata, hrest⟩⟩
  | @helper j h' hnext =>
    intro i
    obtain ⟨p, hp⟩ := h i
    refine ⟨p, ⟨?_, hp.data, hp.run⟩⟩
    by_cases hj : j = i
    · subst hj
      simpa [State.setHelper] using hp.fits.next hnext
    · simpa [State.setHelper, Ne.symm hj] using hp.fits

theorem inv_of_path {program : List (Command ι)} {as : List (Option ι)}
    (h : Legal team needs program) (hpath : Path Step (State.start program) as s) :
    Inv team needs s :=
  hpath.invariant (inv_start h) Inv.step

/-! ## What follows -/

theorem InvAt.measure (h : InvAt team needs s i p) (htodo : s.todo = .measure :: rest) :
    (team i → p = .running) ∧ (needs i → s.own ∧ s.group) := by
  obtain ⟨w, hw, -⟩ := h.next_head htodo
  simp only [View.next] at hw
  split at hw
  · next hlegal => exact hlegal
  · cases hw

/-- **A measurement** takes place while all of the team runs, and none of it has been told to
stop. -/
theorem Inv.measure (h : Inv team needs s) (htodo : s.todo = .measure :: rest) (hi : team i) :
    (s.helper i).started ∧ (s.helper i).done = false ∧
      ((s.helper i).thread = .looping ∨ (s.helper i).thread = .working) := by
  obtain ⟨p, hp⟩ := h i
  obtain rfl := (hp.measure htodo).1 hi
  exact ⟨hp.fits.2.1, hp.fits.1, hp.fits.2.2⟩

/-- **No work on freed data**: a helper that works has its data and the group's. -/
theorem Inv.working (h : Inv team needs s) (hi : (s.helper i).thread = .working)
    (hneeds : needs i) : s.data i ∧ s.group := by
  obtain ⟨p, hp⟩ := h i
  refine hp.data ?_ hneeds
  have hfits := hp.fits
  cases p with
  | off => simp [Fits, hi] at hfits
  | cleared => simp [Fits, hi] at hfits
  | created => exact .inl rfl
  | running => exact .inr (.inl rfl)
  | stopping => exact .inr (.inr rfl)

/-- At the end nothing is left. -/
theorem Inv.finished (h : Inv team needs s) (htodo : s.todo = []) (i : ι) :
    (s.helper i).thread = .absent ∧ s.data i = false ∧ s.group = false ∧ s.own = false := by
  obtain ⟨p, hp⟩ := h i
  have hrun := hp.run
  rw [htodo, View.run_nil, View.nothing, Option.some_inj, View.mk.injEq] at hrun
  obtain ⟨rfl, hrest⟩ := hrun
  exact ⟨hp.fits, hrest⟩

/-- **Progress**: whatever has happened, the helpers can do what the main thread waits for. -/
theorem Inv.exists_exec (h : Inv team needs s) (htodo : s.todo = c :: rest) :
    ∃ as s₁ s₂, Path Step s as s₁ ∧ s₁.todo = c :: rest ∧ exec s₁ c = some s₂ := by
  have ready : ∀ s', exec s c = some s' →
      ∃ as s₁ s₂, Path Step s as s₁ ∧ s₁.todo = c :: rest ∧ exec s₁ c = some s₂ :=
    fun s' hs' => ⟨[], s, s', .nil, htodo, hs'⟩
  cases c with
  | create i =>
    obtain ⟨p, hp⟩ := h i
    obtain ⟨w, hw, -⟩ := hp.next_head htodo
    have hphase : p = .cleared := by
      by_contra hne
      simp [View.next, hne] at hw
    subst hphase
    exact ready _ (if_pos hp.fits.1)
  | awaitStarted i =>
    obtain ⟨p, hp⟩ := h i
    obtain ⟨w, hw, -⟩ := hp.next_head htodo
    have hphase : p = .created := by
      by_contra hne
      simp [View.next, hne] at hw
    subst hphase
    rcases hp.fits.2 with ⟨hthread, -⟩ | ⟨-, hstarted⟩
    · have hnext : (s.helper i).next =
          some { s.helper i with thread := .looping, started := true } := by
        rw [Helper.next, hthread]
      exact ⟨_, _, _, .single (.helper hnext), htodo, if_pos (by simp [State.setHelper])⟩
    · exact ready _ (if_pos hstarted)
  | join i =>
    obtain ⟨p, hp⟩ := h i
    obtain ⟨w, hw, -⟩ := hp.next_head htodo
    have hphase : p = .stopping := by
      by_contra hne
      simp [View.next, hne] at hw
    subst hphase
    obtain ⟨hdone, hthread⟩ := hp.fits
    have exits : ∀ {s : State ι}, s.todo = .join i :: rest → (s.helper i).done = true →
        (s.helper i).thread = .looping →
        ∃ as s₁ s₂, Path Step s as s₁ ∧ s₁.todo = .join i :: rest ∧
          exec s₁ (.join i) = some s₂ := by
      intro s htodo hdone hthread
      have hnext : (s.helper i).next = some { s.helper i with thread := .exited } := by
        rw [Helper.next, hthread]
        simp [hdone]
      exact ⟨_, _, _, .single (.helper hnext), htodo, if_pos (by simp [State.setHelper])⟩
    rcases hthread with hthread | hthread | hthread
    · exact exits htodo hdone hthread
    · have hnext : (s.helper i).next = some { s.helper i with thread := .looping } := by
        rw [Helper.next, hthread]
      obtain ⟨as, s₁, s₂, hpath, hrest⟩ :=
        exits (s := s.setHelper i { s.helper i with thread := .looping }) htodo
          (by simpa [State.setHelper] using hdone) (by simp [State.setHelper])
      exact ⟨_, s₁, s₂, (Path.single (.helper hnext)).trans hpath, hrest⟩
    · exact ready _ (if_pos hthread)
  | _ => exact ready _ rfl

/-- From every state the program can still be finished. -/
theorem Inv.exists_finished (h : Inv team needs s) :
    ∃ as s', Path Step s as s' ∧ Inv team needs s' ∧ s'.todo = [] := by
  generalize htodo : s.todo = program
  induction program generalizing s with
  | nil => exact ⟨[], s, .nil, h, htodo⟩
  | cons c rest ih =>
    obtain ⟨as, s₁, s₂, hpath, htodo₁, hexec⟩ := h.exists_exec htodo
    have hstep := Step.main htodo₁ hexec
    have hinv := (hpath.invariant h Inv.step).step hstep
    obtain ⟨bs, s', hpath', hend⟩ := ih hinv rfl
    exact ⟨_, s', (hpath.trans (.single hstep)).trans hpath', hend⟩

end Chronos.Lib.Helpers
