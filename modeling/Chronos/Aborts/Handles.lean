import Mathlib.Data.List.Induction
import Chronos.Aborts.Region

/-!
# Several abort handles

`init_aborts` and `cleanup_aborts` on any number of structs, in any order. A struct has what
it needs but for `pid_max`, which is one variable for all of them: each `init_aborts` sets it
and each `cleanup_aborts` clears it.
-/

namespace Chronos.Aborts

variable {ι : Type}

/-- A call on one of the structs. -/
inductive Call (ι : Type)
  | init (adata : Option ι) (answers : Answers)
  | cleanup (adata : Option ι)

/-- What a caller knows of a struct from the calls it has made. -/
inductive Handle
  | untouched
  /-- `init_aborts` succeeded and left this. -/
  | live (data : AbortsData)
  | cleanedUp

/-- The world, and what is known of the structs. -/
structure Known (ι : Type) where
  world : World ι
  handle : ι → Handle

/-- A call, and what its result tells. -/
def step [DecidableEq ι] (sys : System) (s : Known ι) : Call ι → Option (Known ι)
  | .init adata answers => do
    let (r, w) ← initAborts sys adata answers s.world
    match adata with
    | none => return { s with world := w }
    | some a =>
      if r = 0 then return ⟨w, Function.update s.handle a (.live (w.data a))⟩
      else return { s with world := w }
  | .cleanup adata =>
    let (_, w) := cleanupAborts adata s.world
    match adata with
    | none => some { s with world := w }
    | some a => some ⟨w, Function.update s.handle a .cleanedUp⟩

def run [DecidableEq ι] (sys : System) : Known ι → List (Call ι) → Option (Known ι)
  | s, [] => some s
  | s, c :: calls => do
    let s ← step sys s c
    run sys s calls

/-- No call has been made. What the structs hold then is not known. -/
def Known.start (data : ι → AbortsData) : Known ι := ⟨⟨0, data⟩, fun _ => .untouched⟩

/-- What each handle promises whatever is done with the others: a live one a character of its
own mapping for every thread id, one that was cleaned up NULL. -/
def Independent (sys : System) (s : Known ι) : Prop :=
  ∀ a, match s.handle a with
    | .untouched => True
    | .live d => ∀ tid, 1 ≤ tid → tid ≤ readPidMax sys.pidMaxFile →
        getAbortPtr s.world (some a) tid = some (d.mmapPointer + tid - 1) ∧ tid - 1 < d.mapsize
    | .cleanedUp => ∀ tid, getAbortPtr s.world (some a) tid = none

/-- The call takes a struct down while another one is live. -/
def Disturbs (s : Known ι) (c : Call ι) : Prop :=
  ∃ a b d, c = .cleanup (some a) ∧ (s.world.data a).initialized = true ∧ b ≠ a ∧
    s.handle b = .live d

/-! ## Consistency -/

section Consistent

variable {sys : System} {s : Known ι}

/-- The struct holds what its caller knows of it, and a mapping has a character for each
thread id. -/
def Handle.Agrees (sys : System) (data : AbortsData) : Handle → Prop
  | untouched => True
  | live d => data = d ∧ d.initialized = true ∧ readPidMax sys.pidMaxFile ≤ d.mapsize
  | cleanedUp => data.initialized = false

def Consistent (sys : System) (s : Known ι) : Prop :=
  ∀ a, (s.handle a).Agrees sys (s.world.data a)

theorem consistent_start (data : ι → AbortsData) : Consistent sys (Known.start data) :=
  fun _ => trivial

/-- `pid_max` holds what the system says whenever a handle is live. -/
def Covered (sys : System) (s : Known ι) : Prop :=
  ∀ a d, s.handle a = .live d → readPidMax sys.pidMaxFile ≤ s.world.pidMax

/-- In consistent states `pid_max` is all that a live handle may miss. -/
theorem independent_iff_covered (hs : Consistent sys s) :
    Independent sys s ↔ readPidMax sys.pidMaxFile ≤ 0 ∨ Covered sys s := by
  constructor
  · intro hind
    by_cases hpos : readPidMax sys.pidMaxFile ≤ 0
    · exact .inl hpos
    · refine .inr fun a d ha => ?_
      have hlive := hind a
      rw [ha] at hlive
      have hptr := (hlive (readPidMax sys.pidMaxFile) (by omega) le_rfl).1
      by_contra hlt
      rw [getAbortPtr_eq_none (fun h => hlt h.2)] at hptr
      cases hptr
  · intro hcovered a
    have ha := hs a
    cases h : s.handle a with
    | untouched => trivial
    | live d =>
      rw [h] at ha
      obtain ⟨hdata, hinit, hsize⟩ := ha
      intro tid hmin hmax
      have hle : tid ≤ s.world.pidMax := by
        obtain hneg | hcovered := hcovered
        · omega
        · exact hmax.trans (hcovered a d h)
      rw [getAbortPtr_eq_some (hdata ▸ hinit) hmin hle, hdata]
      exact ⟨rfl, by omega⟩
    | cleanedUp =>
      rw [h] at ha
      intro tid
      exact getAbortPtr_cleanedUp ha

end Consistent

/-! ## One call -/

section Step

variable {sys : System} {s s' : Known ι}

/-- The sizing loop leaves with a size that suffices. -/
theorem le_orderSize_of_orderLoop {pagesize bytes left order k : Nat}
    (h : orderLoop pagesize bytes left order = some k) : bytes ≤ orderSize pagesize k := by
  induction left generalizing order with
  | zero => cases h
  | succ left ih =>
    rw [orderLoop] at h
    by_cases hsmall : orderSize pagesize order < bytes
    · rw [if_pos hsmall] at h
      exact ih h
    · rw [if_neg hsmall] at h
      cases h
      exact Nat.le_of_not_lt hsmall

theorem readPidMax_le_orderSize {k : Nat} (h : pageorder sys = some k) :
    readPidMax sys.pidMaxFile ≤ orderSize sys.pagesize k := by
  by_cases hpos : 0 < readPidMax sys.pidMaxFile
  · have hslots := slots_eq hpos (readPidMax_lt sys.pidMaxFile)
    have henough := le_orderSize_of_orderLoop h
    omega
  · omega

variable [DecidableEq ι]

/-- What `cleanup_aborts` does to a struct. -/
theorem cleanupAborts_some (a : ι) (w : World ι) :
    ((cleanupAborts (some a) w).2.data a).initialized = false ∧
      (∀ b, b ≠ a → (cleanupAborts (some a) w).2.data b = w.data b) ∧
      (cleanupAborts (some a) w).2.pidMax = if (w.data a).initialized then 0 else w.pidMax := by
  unfold cleanupAborts
  cases h : (w.data a).initialized with
  | false => simp [h]
  | true =>
    refine ⟨by simp [h], fun b hb => ?_, by simp [h]⟩
    simp [h, Function.update_of_ne hb]

/-- What a call can do: nothing to the structs, or `init_aborts` succeeds, or a struct is
cleaned up. -/
theorem step_cases {c : Call ι} (h : step sys s c = some s') :
    (s'.handle = s.handle ∧ s'.world.data = s.world.data ∧
      (s'.world.pidMax = s.world.pidMax ∨ s'.world.pidMax = readPidMax sys.pidMaxFile)) ∨
    (∃ a d, s'.handle = Function.update s.handle a (.live d) ∧
      s'.world.data = Function.update s.world.data a d ∧ d.initialized = true ∧
      readPidMax sys.pidMaxFile ≤ d.mapsize ∧ s'.world.pidMax = readPidMax sys.pidMaxFile) ∨
    ∃ a, c = .cleanup (some a) ∧ s'.handle = Function.update s.handle a .cleanedUp ∧
      s'.world = (cleanupAborts (some a) s.world).2 := by
  cases c with
  | cleanup adata =>
    cases adata with
    | none =>
      cases h
      exact .inl ⟨rfl, rfl, .inl rfl⟩
    | some a =>
      cases h
      exact .inr (.inr ⟨a, rfl, rfl, rfl⟩)
  | init adata answers =>
    cases adata with
    | none =>
      cases h
      exact .inl ⟨rfl, rfl, .inl rfl⟩
    | some a =>
      obtain ⟨⟨r, w⟩, hinit, h⟩ := Option.bind_eq_some_iff.mp h
      obtain ⟨hpid, ⟨rfl, hdata⟩ | ⟨k, mmapPointer, fd, rfl, hk, hdata⟩⟩ := initAborts_cases hinit
      · cases h
        exact .inl ⟨rfl, hdata, .inr hpid⟩
      · cases h
        have ha : w.data a = ⟨mmapPointer, fd, orderSize sys.pagesize k, true⟩ := by
          rw [hdata, Function.update_self]
        refine .inr (.inl ⟨a, w.data a, rfl, ?_, ?_, ?_, hpid⟩)
        · rw [ha]
          exact hdata
        · rw [ha]
        · rw [ha]
          exact readPidMax_le_orderSize hk

/-- Every call leaves the structs consistent with what is known of them. -/
theorem Consistent.step {c : Call ι} (hs : Consistent sys s) (h : step sys s c = some s') :
    Consistent sys s' := by
  intro b
  have hb := hs b
  obtain ⟨hhandle, hdata, -⟩ | ⟨a, d, hhandle, hdata, hinit, hsize, -⟩ |
    ⟨a, -, hhandle, hworld⟩ := step_cases h
  · rwa [hhandle, hdata]
  · rw [hhandle, hdata]
    by_cases heq : b = a
    · rw [heq, Function.update_self, Function.update_self]
      exact ⟨rfl, hinit, hsize⟩
    · rwa [Function.update_of_ne heq, Function.update_of_ne heq]
  · obtain ⟨hclean, hother, -⟩ := cleanupAborts_some a s.world
    rw [hhandle, hworld]
    by_cases heq : b = a
    · rw [heq, Function.update_self]
      exact hclean
    · rwa [Function.update_of_ne heq, hother b heq]

/-- A call that takes no struct down while another one is live leaves `pid_max` as the live
ones need it. -/
theorem Covered.step {c : Call ι} (hcovered : Covered sys s) (hc : ¬Disturbs s c)
    (h : step sys s c = some s') : Covered sys s' := by
  intro b d hb
  obtain ⟨hhandle, hdata, hpid | hpid⟩ | ⟨a, d', hhandle, hdata, hinit, hsize, hpid⟩ |
    ⟨a, rfl, hhandle, hworld⟩ := step_cases h
  · rw [hpid]
    rw [hhandle] at hb
    exact hcovered b d hb
  · exact hpid.ge
  · exact hpid.ge
  · rw [hhandle] at hb
    have hne : b ≠ a := by
      rintro rfl
      simp at hb
    have hlive : s.handle b = .live d := by
      rwa [Function.update_of_ne hne] at hb
    have hdead : ¬(s.world.data a).initialized = true := by
      intro hinit
      exact hc ⟨a, b, d, rfl, hinit, hne, hlive⟩
    rw [hworld, (cleanupAborts_some a s.world).2.2, if_neg hdead]
    exact hcovered b d hlive

/-- A call that does take a struct down leaves none for any live one. -/
theorem Disturbs.not_covered {c : Call ι} (hc : Disturbs s c)
    (hpos : 0 < readPidMax sys.pidMaxFile) :
    ∃ s', step sys s c = some s' ∧ ¬Covered sys s' := by
  obtain ⟨a, b, d, rfl, hinit, hne, hlive⟩ := hc
  refine ⟨_, rfl, fun hcovered => ?_⟩
  have hle := hcovered b d (by rw [← hlive]; exact Function.update_of_ne hne _ _)
  have hzero : (cleanupAborts (some a) s.world).2.pidMax = 0 := by
    rw [(cleanupAborts_some a s.world).2.2, if_pos hinit]
  have : readPidMax sys.pidMaxFile ≤ (cleanupAborts (some a) s.world).2.pidMax := hle
  omega

end Step

/-! ## Runs -/

section Run

variable [DecidableEq ι] {sys : System} {s s' : Known ι}

theorem run_concat (calls : List (Call ι)) (c : Call ι) :
    run sys s (calls ++ [c]) = (run sys s calls).bind fun s' => step sys s' c := by
  induction calls generalizing s with
  | nil => cases h : step sys s c <;> simp [run, h]
  | cons c' calls ih =>
    rw [List.cons_append, run, run]
    cases step sys s c' with
    | none => rfl
    | some s₁ => exact ih

theorem Consistent.run {calls : List (Call ι)} (hs : Consistent sys s)
    (h : run sys s calls = some s') : Consistent sys s' := by
  induction calls using List.reverseRecOn generalizing s' with
  | nil =>
    cases h
    exact hs
  | append_singleton calls c ih =>
    rw [run_concat] at h
    obtain ⟨s₁, hrun, hstep⟩ := Option.bind_eq_some_iff.mp h
    exact (ih hrun).step hstep

/-- No call takes a struct down while another one is live. -/
def Undisturbed (sys : System) (s : Known ι) (calls : List (Call ι)) : Prop :=
  ∀ pre c s', pre ++ [c] <+: calls → run sys s pre = some s' → ¬Disturbs s' c

theorem Covered.run {calls : List (Call ι)} (hcovered : Covered sys s)
    (hcalls : Undisturbed sys s calls) {pre : List (Call ι)} (hpre : pre <+: calls)
    (h : run sys s pre = some s') : Covered sys s' := by
  induction pre using List.reverseRecOn generalizing s' with
  | nil =>
    cases h
    exact hcovered
  | append_singleton pre c ih =>
    rw [run_concat] at h
    obtain ⟨s₁, hrun, hstep⟩ := Option.bind_eq_some_iff.mp h
    exact (ih ((List.prefix_append pre [c]).trans hpre) hrun).step (hcalls pre c s₁ hpre hrun) hstep

theorem run_isSome {k : Nat} (hk : pageorder sys = some k) (s : Known ι) (calls : List (Call ι)) :
    (run sys s calls).isSome = true := by
  induction calls generalizing s with
  | nil => rfl
  | cons c calls ih =>
    have hstep : ∃ s', step sys s c = some s' := by
      cases c with
      | cleanup adata => cases adata <;> exact ⟨_, rfl⟩
      | init adata answers =>
        cases adata with
        | none => exact ⟨_, rfl⟩
        | some a =>
          obtain ⟨r, w, hinit⟩ := initAborts_isSome hk a answers s.world
          simp only [step, hinit, Option.bind_eq_bind, Option.bind_some]
          by_cases hr : r = 0
          · exact ⟨_, if_pos hr⟩
          · exact ⟨_, if_neg hr⟩
    obtain ⟨s', hstep⟩ := hstep
    simp [run, hstep, ih]

/-- **Handles are independent of each other** in every state of a run exactly when no struct
is taken down while another one is live. The calls of such a run return whenever the sizing
loop does. -/
theorem independent_iff (sys : System) (data : ι → AbortsData) (calls : List (Call ι)) :
    ((∀ pre s, pre <+: calls → run sys (Known.start data) pre = some s → Independent sys s) ↔
      readPidMax sys.pidMaxFile ≤ 0 ∨ Undisturbed sys (Known.start data) calls) ∧
    ∀ k, pageorder sys = some k → (run sys (Known.start data) calls).isSome = true := by
  have hstart : Consistent sys (Known.start data) := consistent_start data
  refine ⟨⟨fun hind => ?_, fun hcalls => ?_⟩, fun k hk => run_isSome hk _ calls⟩
  · by_cases hpos : readPidMax sys.pidMaxFile ≤ 0
    · exact .inl hpos
    · refine .inr fun pre c s hpre hrun hc => ?_
      obtain ⟨s', hstep, hnot⟩ := hc.not_covered (Int.not_le.mp hpos)
      have hrun' : run sys (Known.start data) (pre ++ [c]) = some s' := by
        rw [run_concat, hrun, Option.bind_some, hstep]
      have hind' := hind _ s' hpre hrun'
      rw [independent_iff_covered (hstart.run hrun')] at hind'
      exact hind'.elim hpos hnot
  · intro pre s hpre hrun
    rw [independent_iff_covered (hstart.run hrun)]
    obtain hneg | hcalls := hcalls
    · exact .inl hneg
    · refine .inr (Covered.run ?_ hcalls hpre hrun)
      intro a d ha
      cases ha

/-- Two structs are initialised and the second one is cleaned up: now the first one has no
character for any thread. -/
theorem not_independent_two :
    ¬∀ pre s, pre <+: [Call.init (some true) ⟨3, 0, some 4096⟩,
        .init (some false) ⟨4, 0, some 65536⟩, .cleanup (some false)] →
      run ⟨4096, none⟩ (Known.start fun _ => ⟨0, 0, 0, false⟩) pre = some s →
      Independent ⟨4096, none⟩ s := by
  intro hind
  have hall := hind _ _ (List.prefix_refl _) rfl true 1 (by decide) (by decide)
  cases hall.1

end Run

end Chronos.Aborts
