import Mathlib.Algebra.Ring.Nat
import Mathlib.Data.List.Basic

/-!
# Lists that tile an interval

A list of segments, each with a start and a length, tiles `[lo, hi)` when the
first starts at `lo`, each next one starts where its predecessor ends, and the
last ends at `hi`: no gap and no overlap.
-/

namespace Chronos.Lib

variable {α : Type*}

/-- The segments of `l` tile `[lo, hi)` in order. -/
def Tiles (start len : α → Nat) : Nat → Nat → List α → Prop
  | lo, hi, [] => lo = hi
  | lo, hi, b :: l => start b = lo ∧ Tiles start len (lo + len b) hi l

namespace Tiles

variable {start len : α → Nat} {lo hi mid : Nat} {l p q : List α} {a b : α}

@[simp] theorem nil_iff : Tiles start len lo hi [] ↔ lo = hi := Iff.rfl

@[simp] theorem cons_iff :
    Tiles start len lo hi (b :: l) ↔ start b = lo ∧ Tiles start len (lo + len b) hi l := Iff.rfl

/-- A tiling may be cut between any two segments. -/
theorem append_iff : Tiles start len lo hi (p ++ q) ↔
    ∃ mid, Tiles start len lo mid p ∧ Tiles start len mid hi q := by
  induction p generalizing lo with
  | nil => simp
  | cons b p ih => simp [ih, and_assoc]

theorem le (h : Tiles start len lo hi l) : lo ≤ hi := by
  induction l generalizing lo with
  | nil => exact Nat.le_of_eq h
  | cons b l ih =>
    have := ih h.2
    omega

/-- The lengths add up to the length of the interval. -/
theorem add_sum (h : Tiles start len lo hi l) : lo + (l.map len).sum = hi := by
  induction l generalizing lo with
  | nil => exact h
  | cons b l ih =>
    have := ih h.2
    rw [List.map_cons, List.sum_cons]
    omega

/-- There are no more segments than the interval has places. -/
theorem length_le (h : Tiles start len lo hi l) (hlen : ∀ b ∈ l, 0 < len b) : lo + l.length ≤ hi := by
  induction l generalizing lo with
  | nil => exact h.le
  | cons b l ih =>
    have := ih h.2 fun c hc => hlen c (List.mem_cons_of_mem b hc)
    have := hlen b List.mem_cons_self
    rw [List.length_cons]
    omega

theorem bounds (h : Tiles start len lo hi l) (hb : b ∈ l) :
    lo ≤ start b ∧ start b + len b ≤ hi := by
  obtain ⟨p, q, rfl⟩ := List.append_of_mem hb
  obtain ⟨mid, hp, hst, hq⟩ := append_iff.mp h
  have := hp.le
  have := Tiles.le hq
  omega

/-- Of two segments, the earlier ends at or before the start of the later. -/
theorem pairwise (h : Tiles start len lo hi l) :
    l.Pairwise fun a b => start a + len a ≤ start b := by
  induction l generalizing lo with
  | nil => exact List.Pairwise.nil
  | cons b l ih =>
    refine List.pairwise_cons.mpr ⟨fun c hc => ?_, ih h.2⟩
    have := (h.2.bounds hc).1
    have := h.1
    omega

/-- Distinct segments do not overlap. -/
theorem disjoint (h : Tiles start len lo hi l) (ha : a ∈ l) (hb : b ∈ l) (hne : a ≠ b) :
    start a + len a ≤ start b ∨ start b + len b ≤ start a := by
  obtain ⟨p, q, rfl⟩ := List.append_of_mem ha
  have hpair := h.pairwise
  rw [List.pairwise_append, List.pairwise_cons] at hpair
  rcases List.mem_append.mp hb with hbp | hbq
  · exact Or.inr (hpair.2.2 b hbp a List.mem_cons_self)
  · rcases List.mem_cons.mp hbq with rfl | hbq
    · exact absurd rfl hne
    · exact Or.inl (hpair.2.1.1 b hbq)

/-- A segment of positive length is determined by its start. -/
theorem eq_of_start (h : Tiles start len lo hi l) (ha : a ∈ l) (hb : b ∈ l)
    (hlen : ∀ c ∈ l, 0 < len c) (hst : start a = start b) : a = b := by
  by_contra hne
  have := hlen a ha
  have := hlen b hb
  rcases h.disjoint ha hb hne with hd | hd <;> omega

/-- The starts of segments of positive length are distinct. -/
theorem nodup_starts (h : Tiles start len lo hi l) (hlen : ∀ c ∈ l, 0 < len c) :
    (l.map start).Nodup := by
  rw [List.Nodup, List.pairwise_map]
  refine h.pairwise.imp_of_mem fun {a b} ha _ hab => ?_
  have := hlen a ha
  omega

/-- Two tilings from the same place that agree on the lengths go together as far as one of
them is followed. -/
theorem walk {l' : List α} (h : Tiles start len lo mid l) (h' : Tiles start len lo hi l')
    (hle : mid ≤ hi) (hlen : ∀ a ∈ l, 0 < len a)
    (heq : ∀ a ∈ l, ∀ b ∈ l', start a = start b → len a = len b) :
    ∃ p q, l' = p ++ q ∧ Tiles start len lo mid p ∧ Tiles start len mid hi q := by
  induction l generalizing lo l' with
  | nil =>
    obtain rfl := h
    exact ⟨[], l', rfl, rfl, h'⟩
  | cons a l ih =>
    have hmid := h.2.le
    have hpos := hlen a List.mem_cons_self
    cases l' with
    | nil =>
      obtain rfl := h'
      omega
    | cons b l' =>
      have hab := heq a List.mem_cons_self b List.mem_cons_self (h.1.trans h'.1.symm)
      obtain ⟨p, q, rfl, hp, hq⟩ := ih h.2 (hab ▸ h'.2)
        (fun c hc => hlen c (List.mem_cons_of_mem a hc))
        fun c hc d hd => heq c (List.mem_cons_of_mem a hc) d (List.mem_cons_of_mem b hd)
      exact ⟨b :: p, q, rfl, ⟨h'.1, hab ▸ hp⟩, hq⟩

/-- A tiling is determined by what is at each start. -/
theorem unique {l' : List α} (h : Tiles start len lo hi l) (h' : Tiles start len lo hi l')
    (hlen : ∀ a ∈ l, 0 < len a) (hlen' : ∀ b ∈ l', 0 < len b)
    (heq : ∀ a ∈ l, ∀ b ∈ l', start a = start b → a = b) : l = l' := by
  induction l generalizing lo l' with
  | nil =>
    cases l' with
    | nil => rfl
    | cons b l' =>
      obtain rfl := h
      have := h'.2.le
      have := hlen' b List.mem_cons_self
      omega
  | cons a l ih =>
    cases l' with
    | nil =>
      obtain rfl := h'
      have := h.2.le
      have := hlen a List.mem_cons_self
      omega
    | cons b l' =>
      obtain rfl := heq a List.mem_cons_self b List.mem_cons_self (h.1.trans h'.1.symm)
      rw [ih h.2 h'.2 (fun c hc => hlen c (List.mem_cons_of_mem a hc))
        (fun c hc => hlen' c (List.mem_cons_of_mem a hc))
        fun c hc d hd => heq c (List.mem_cons_of_mem a hc) d (List.mem_cons_of_mem a hd)]

/-- Where every length is a multiple, so is every start. -/
theorem dvd_start {d : Nat} (h : Tiles start len lo hi l) (hlo : d ∣ lo) (hlen : ∀ b ∈ l, d ∣ len b)
    (hb : b ∈ l) : d ∣ start b := by
  induction l generalizing lo with
  | nil => cases hb
  | cons c l ih =>
    rcases List.mem_cons.mp hb with rfl | hb
    · rw [h.1]
      exact hlo
    · exact ih h.2 ((Nat.dvd_add_right hlo).mpr (hlen c List.mem_cons_self))
        (fun e he => hlen e (List.mem_cons_of_mem c he)) hb

end Tiles

end Chronos.Lib
