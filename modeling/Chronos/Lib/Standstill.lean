import Mathlib.Data.Fintype.Card
import Chronos.Lib.Deadlock

/-!
# Processes that take a list in rounds

Each process acquires all of its list in order, releases it in reverse order, and starts over,
a number of times. Such processes can come to a standstill if and only if some of them can be
stopped inside their lists, having taken different things, each of them before something that
one of them has taken.
-/

namespace Chronos.Lib.Deadlock

variable {ι α : Type*}

/-- `n` times all of the list. -/
def rounds (locks : List α) : Nat → List (Bracket α)
  | 0 => []
  | n + 1 => locks.map .acquire ++ locks.reverse.map .release ++ rounds locks n

/-- Inside a round, with the first `p` of the list taken, on the way up or on the way down. -/
inductive InRound (locks : List α) : List α → List (Bracket α) → Prop
  | up (n p : Nat) (hp : p < locks.length) :
    InRound locks (locks.take p).reverse
      ((locks.drop p).map .acquire ++ (locks.reverse.map .release ++ rounds locks n))
  | down (n p : Nat) (hp : p ≤ locks.length) :
    InRound locks (locks.take p).reverse
      ((locks.take p).reverse.map .release ++ rounds locks n)

/-- Processes at a standstill: those in `B` have taken the first `pos i` of their lists, and
each of them wants something that one of them has taken. -/
structure Jam (locks : ι → List α) (B : Set ι) (pos : ι → Nat) : Prop where
  nonempty : B.Nonempty
  nodup : ∀ i ∈ B, ((locks i).take (pos i)).Nodup
  disjoint : ∀ i ∈ B, ∀ j ∈ B, ∀ a, a ∈ (locks i).take (pos i) → a ∈ (locks j).take (pos j) → i = j
  wants : ∀ i ∈ B, ∃ a, (locks i)[pos i]? = some a ∧ ∃ j ∈ B, a ∈ (locks j).take (pos j)

/-! ## Inside a round -/

variable {locks held : List α} {rest : List (Bracket α)} {a : α} {n p : Nat}

theorem rounds_nil (n : Nat) : rounds ([] : List α) n = [] := by
  induction n with
  | zero => rfl
  | succ n ih => simpa [rounds] using ih

theorem inRound_rounds (locks : List α) (n : Nat) : InRound locks [] (rounds locks n) := by
  simpa using InRound.down n 0 (Nat.zero_le locks.length)

/-- On the way up or at the top. -/
theorem InRound.of_le (n : Nat) (hp : p ≤ locks.length) :
    InRound locks (locks.take p).reverse
      ((locks.drop p).map .acquire ++ (locks.reverse.map .release ++ rounds locks n)) := by
  rcases lt_or_eq_of_le hp with hlt | rfl
  · exact .up n p hlt
  · simpa using InRound.down n locks.length (le_refl locks.length)

/-- A process that acquires is on the way up. -/
theorem InRound.acquire_cases (h : InRound locks held (.acquire a :: rest)) :
    ∃ p n, held = (locks.take p).reverse ∧ locks[p]? = some a ∧
      rest = (locks.drop (p + 1)).map .acquire ++
        (locks.reverse.map .release ++ rounds locks n) := by
  have key : ∀ p n, p < locks.length → Bracket.acquire a :: rest =
      (locks.drop p).map .acquire ++ (locks.reverse.map .release ++ rounds locks n) →
      locks[p]? = some a ∧
        rest = (locks.drop (p + 1)).map .acquire ++ (locks.reverse.map .release ++
          rounds locks n) := by
    intro p n hp heq
    rw [List.drop_eq_getElem_cons hp, List.map_cons, List.cons_append] at heq
    injection heq with hhead htail
    injection hhead with ha
    exact ⟨by rw [List.getElem?_eq_getElem hp, ha], htail⟩
  generalize htodo : Bracket.acquire a :: rest = todo at h
  cases h with
  | up n p hp =>
    obtain ⟨ha, hrest⟩ := key p n hp htodo
    exact ⟨p, n, rfl, ha, hrest⟩
  | down n p hp =>
    -- nothing is held any more, and the next round begins
    rcases hp : (locks.take p).reverse with _ | ⟨b, bs⟩
    · rw [hp, List.map_nil, List.nil_append] at htodo
      cases n with
      | zero => cases htodo
      | succ n =>
        rw [rounds, List.append_assoc] at htodo
        have hpos : 0 < locks.length := by
          rcases locks with _ | ⟨c, cs⟩
          · simp [rounds_nil] at htodo
          · exact Nat.zero_lt_succ _
        obtain ⟨ha, hrest⟩ := key 0 n hpos (by simpa using htodo)
        exact ⟨0, n, by simp, ha, hrest⟩
    · rw [hp] at htodo
      cases htodo

theorem kept_inRound (locks : List α) : Kept (InRound locks) where
  acquire := by
    intro held a rest h
    obtain ⟨p, n, rfl, ha, rfl⟩ := h.acquire_cases
    obtain ⟨hp, rfl⟩ := List.getElem?_eq_some_iff.mp ha
    have := InRound.of_le n (Nat.succ_le_of_lt hp)
    rwa [List.take_add_one, List.getElem?_eq_getElem hp, Option.toList_some, List.reverse_append,
      List.reverse_singleton, List.singleton_append] at this
  release := by
    intro held a rest h
    generalize hheld : a :: held = all at h
    generalize htodo : Bracket.release a :: rest = todo at h
    cases h with
    | up n p hp =>
      rw [List.drop_eq_getElem_cons hp] at htodo
      cases htodo
    | down n p hp =>
      cases p with
      | zero => simp at hheld
      | succ p =>
        have hp' : p < locks.length := hp
        rw [List.take_add_one, List.getElem?_eq_getElem hp', Option.toList_some,
          List.reverse_append, List.reverse_singleton, List.singleton_append] at hheld htodo
        injection hheld with _ hheld
        injection htodo with _ htodo
        rw [hheld, htodo]
        exact .down n p hp'.le

variable [DecidableEq α]

theorem nested_rounds (locks : List α) (n : Nat) : Nested (rounds locks n) := by
  induction n with
  | zero => exact .nil
  | succ n ih => exact (Nested.acquires_releases locks).append ih

/-! ## The standstill -/

variable [DecidableEq ι] {s s' : State ι α} {as : List ι} {locksOf : ι → List α} {times : ι → Nat}
  {B : Set ι} {pos : ι → Nat}

/-- The processes, each with its list and how often it takes it. -/
def startRounds (locksOf : ι → List α) (times : ι → Nat) : State ι α :=
  .start fun i => rounds (locksOf i) (times i)

/-- **Necessity**: those that are unfinished when nothing can move are jammed. -/
theorem exists_jam (h : Path Step (startRounds locksOf times) as s) (hstuck : Stuck s) :
    ∃ B pos, Jam locksOf B pos ∧ ∀ i ∈ B, 0 < times i := by
  obtain ⟨held, hinv, hround⟩ := exists_inv
    (P := fun i held todo => InRound (locksOf i) held todo ∧ (times i = 0 → todo = []))
    (fun i => ⟨fun h => ⟨(kept_inRound _).acquire h.1, fun h0 => nomatch h.2 h0⟩,
      fun h => ⟨(kept_inRound _).release h.1, fun h0 => nomatch h.2 h0⟩⟩)
    (fun i => ⟨inRound_rounds _ _, fun h0 => by rw [h0, rounds]⟩)
    (fun i => nested_rounds _ _) h
  have hblocked : ∀ i, s.todo i ≠ [] → ∃ p a j, held i = ((locksOf i).take p).reverse ∧
      (locksOf i)[p]? = some a ∧ a ∈ held j ∧ s.todo j ≠ [] := by
    intro i hi
    obtain ⟨a, rest, j, htodo, hj, hne⟩ := hinv.blocked hi (hstuck.2 i)
    obtain ⟨p, n, hheld, ha, -⟩ := (htodo ▸ (hround i).1).acquire_cases
    exact ⟨p, a, j, hheld, ha, (hinv.holder_iff a j).mp hj, hne⟩
  choose! pos wants by_ hheld hwants hby hne using hblocked
  have hmem : ∀ i, s.todo i ≠ [] → ∀ a, a ∈ held i ↔ a ∈ (locksOf i).take (pos i) := by
    intro i hi a
    rw [hheld i hi, List.mem_reverse]
  refine ⟨{i | s.todo i ≠ []}, pos, ⟨hstuck.1, fun i hi => ?_, fun i hi j hj a hai haj => ?_,
    fun i hi => ⟨wants i hi, hwants i hi, by_ i, hne i hi, ?_⟩⟩, fun i hi => ?_⟩
  · have := hinv.nodup i
    rwa [hheld i hi, List.nodup_reverse] at this
  · have hi' := (hinv.holder_iff a i).mpr ((hmem i hi a).mpr hai)
    have hj' := (hinv.holder_iff a j).mpr ((hmem j hj a).mpr haj)
    exact Option.some_inj.mp (hi'.symm.trans hj')
  · exact (hmem _ (hne i hi) _).mp (hby i hi)
  · exact Nat.pos_of_ne_zero fun h0 => hi ((hround i).2 h0)

/-- A process takes one free resource after the other. -/
theorem path_acquires {i : ι} (l : List α) (hnodup : l.Nodup)
    (hfree : ∀ a ∈ l, s.holder a = none) {rest : List (Bracket α)}
    (htodo : s.todo i = l.map .acquire ++ rest) :
    ∃ as, Path Step s as ⟨Function.update s.todo i rest,
      fun a => if a ∈ l then some i else s.holder a⟩ := by
  induction l generalizing s with
  | nil =>
    refine ⟨[], ?_⟩
    have : Function.update s.todo i rest = s.todo := by
      rw [← show s.todo i = rest from htodo, Function.update_eq_self]
    simpa [this] using Path.nil
  | cons b l ih =>
    rw [List.nodup_cons] at hnodup
    have hstep := Step.acquire htodo (hfree b List.mem_cons_self)
    obtain ⟨as, hpath⟩ := ih (s := ⟨Function.update s.todo i (l.map .acquire ++ rest),
        Function.update s.holder b (some i)⟩) hnodup.2 (fun a ha => by
          dsimp only
          rw [Function.update_of_ne (ne_of_mem_of_not_mem ha hnodup.1)]
          exact hfree a (List.mem_cons_of_mem _ ha)) (Function.update_self ..)
    have hholder : (fun a => if a ∈ b :: l then some i else s.holder a) =
        fun a => if a ∈ l then some i else Function.update s.holder b (some i) a := by
      funext a
      by_cases hab : a = b
      · simp [hab]
      · simp [hab]
    have hpath' := (Path.single hstep).trans hpath
    rw [Function.update_idem] at hpath'
    exact ⟨_, hholder ▸ hpath'⟩

/-- The processes of `C` stopped at their positions, and the others not yet started. -/
structure Stopped (locksOf : ι → List α) (times pos : ι → Nat) (C : Finset ι) (s : State ι α) :
    Prop where
  waiting : ∀ i ∈ C, ∃ rest, s.todo i = ((locksOf i).drop (pos i)).map .acquire ++ rest
  idle : ∀ i ∉ C, s.todo i = rounds (locksOf i) (times i)
  taken : ∀ i ∈ C, ∀ a ∈ (locksOf i).take (pos i), s.holder a = some i
  free : ∀ a, (∀ i ∈ C, a ∉ (locksOf i).take (pos i)) → s.holder a = none

theorem exists_stopped (hjam : Jam locksOf B pos) (htimes : ∀ i ∈ B, 0 < times i)
    (C : Finset ι) (hC : ∀ i ∈ C, i ∈ B) :
    ∃ as s, Path Step (startRounds locksOf times) as s ∧ Stopped locksOf times pos C s := by
  induction C using Finset.induction_on with
  | empty => exact ⟨[], _, .nil, ⟨by simp, fun _ _ => rfl, by simp, fun _ _ => rfl⟩⟩
  | insert i C hi ih =>
    obtain ⟨as, s, hpath, hs⟩ := ih fun j hj => hC j (Finset.mem_insert_of_mem hj)
    have hiB := hC i (Finset.mem_insert_self i C)
    obtain ⟨n, hn⟩ := Nat.exists_eq_succ_of_ne_zero (htimes i hiB).ne'
    have htodo : s.todo i = ((locksOf i).take (pos i)).map .acquire ++
        (((locksOf i).drop (pos i)).map .acquire ++
          ((locksOf i).reverse.map .release ++ rounds (locksOf i) n)) := by
      rw [hs.idle i hi, hn, rounds, ← List.append_assoc, ← List.map_append, List.take_append_drop,
        List.append_assoc]
    have hfree : ∀ a ∈ (locksOf i).take (pos i), s.holder a = none := by
      intro a ha
      refine hs.free a fun j hj haj => hi ?_
      rwa [hjam.disjoint i hiB j (hC j (Finset.mem_insert_of_mem hj)) a ha haj]
    obtain ⟨bs, hpath'⟩ := path_acquires _ (hjam.nodup i hiB) hfree htodo
    refine ⟨as ++ bs, _, hpath.trans hpath', ⟨fun j hj => ?_, fun j hj => ?_, fun j hj a ha => ?_,
      fun a ha => ?_⟩⟩
    · by_cases hji : j = i
      · subst hji
        exact ⟨_, Function.update_self ..⟩
      · simpa [hji] using hs.waiting j (Finset.mem_of_mem_insert_of_ne hj hji)
    · rw [Finset.mem_insert, not_or] at hj
      simpa [hj.1] using hs.idle j hj.2
    · by_cases hji : j = i
      · subst hji
        simp [ha]
      · have hnot : a ∉ (locksOf i).take (pos i) := fun h =>
          hji (hjam.disjoint j (hC j hj) i hiB a ha h)
        simpa [hnot] using hs.taken j (Finset.mem_of_mem_insert_of_ne hj hji) a ha
    · have hnot : a ∉ (locksOf i).take (pos i) := ha i (Finset.mem_insert_self i C)
      simpa [hnot] using hs.free a fun j hj => ha j (Finset.mem_insert_of_mem hj)

/-- Processes that are jammed stay as they are, whatever the others do. -/
theorem Jam.step (hjam : Jam locksOf B pos) {i : ι}
    (hwaiting : ∀ i ∈ B, ∃ rest, s.todo i = ((locksOf i).drop (pos i)).map .acquire ++ rest)
    (htaken : ∀ i ∈ B, ∀ a ∈ (locksOf i).take (pos i), s.holder a = some i) (hs : Step s i s') :
    i ∉ B ∧ (∀ j ∈ B, s'.todo j = s.todo j) ∧
      ∀ j ∈ B, ∀ a ∈ (locksOf j).take (pos j), s'.holder a = some j := by
  have hwants : ∀ j ∈ B, ∃ a rest k, s.todo j = .acquire a :: rest ∧ s.holder a = some k := by
    intro j hj
    obtain ⟨a, ha, k, hk, hak⟩ := hjam.wants j hj
    obtain ⟨rest, hrest⟩ := hwaiting j hj
    obtain ⟨hp, rfl⟩ := List.getElem?_eq_some_iff.mp ha
    rw [List.drop_eq_getElem_cons hp] at hrest
    exact ⟨_, _, k, hrest, htaken k hk _ hak⟩
  have hi : i ∉ B := by
    intro hi
    obtain ⟨a, rest, k, htodo, hk⟩ := hwants i hi
    cases hs with
    | acquire htodo' hfree =>
      rw [htodo] at htodo'
      cases htodo'
      rw [hk] at hfree
      cases hfree
    | release htodo' _ =>
      rw [htodo] at htodo'
      cases htodo'
  have hother : ∀ j ∈ B, j ≠ i := fun j hj hji => hi (hji ▸ hj)
  refine ⟨hi, fun j hj => ?_, fun j hj b hb => ?_⟩
  · cases hs <;> exact Function.update_of_ne (hother j hj) ..
  · have hheld := htaken j hj b hb
    cases hs with
    | @acquire a rest _ hfree =>
      have hba : b ≠ a := fun h => by
        rw [h, hfree] at hheld
        cases hheld
      exact (Function.update_of_ne hba ..).trans hheld
    | @release a rest _ hrel =>
      have hba : b ≠ a := fun h => by
        rw [h, hrel] at hheld
        exact hother j hj (Option.some_inj.mp hheld).symm
      exact (Function.update_of_ne hba ..).trans hheld

/-- **Sufficiency**: where a jam is possible, some run ends in a standstill. -/
theorem exists_stuck [Fintype ι] (hjam : Jam locksOf B pos) (htimes : ∀ i ∈ B, 0 < times i) :
    ∃ as s, Path Step (startRounds locksOf times) as s ∧ Stuck s := by
  classical
  obtain ⟨as, s, hpath, hstopped⟩ :=
    exists_stopped hjam htimes (Finset.univ.filter (· ∈ B)) (by simp)
  obtain ⟨bs, s', hpath', hend⟩ := exists_maximal s
  have hkept := hpath'.invariant (P := fun s =>
      (∀ i ∈ B, ∃ rest, s.todo i = ((locksOf i).drop (pos i)).map .acquire ++ rest) ∧
      ∀ i ∈ B, ∀ a ∈ (locksOf i).take (pos i), s.holder a = some i)
    ⟨fun i hi => hstopped.waiting i (by simpa using hi),
      fun i hi => hstopped.taken i (by simpa using hi)⟩
    (by
      rintro s i s' ⟨hwaiting, htaken⟩ hs
      obtain ⟨-, htodo, hholder⟩ := hjam.step hwaiting htaken hs
      exact ⟨fun j hj => by rw [htodo j hj]; exact hwaiting j hj, hholder⟩)
  refine ⟨_, s', hpath.trans hpath', ?_, hend⟩
  obtain ⟨i, hi⟩ := hjam.nonempty
  obtain ⟨rest, hrest⟩ := hkept.1 i hi
  obtain ⟨a, ha, -⟩ := hjam.wants i hi
  obtain ⟨hp, -⟩ := List.getElem?_eq_some_iff.mp ha
  refine ⟨i, fun hnil => ?_⟩
  rw [hnil, List.drop_eq_getElem_cons hp] at hrest
  cases hrest

/-- **The criterion.** -/
theorem stuck_iff_jam [Fintype ι] :
    (∃ as s, Path Step (startRounds locksOf times) as s ∧ Stuck s) ↔
      ∃ B pos, Jam locksOf B pos ∧ ∀ i ∈ B, 0 < times i :=
  ⟨fun ⟨_, _, h, hstuck⟩ => exists_jam h hstuck,
    fun ⟨_, _, hjam, htimes⟩ => exists_stuck hjam htimes⟩

end Chronos.Lib.Deadlock
