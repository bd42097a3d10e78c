import Mathlib.Data.Nat.Basic
import Mathlib.Tactic.Ring

/-!
# Byte memory

The memory of one process: which addresses are mapped, and the byte at each.
Words of any width are stored little endian. Address 0 is never mapped, and
this is a field of the structure, so no operation can produce a memory in which
a null pointer may be followed.

Nothing is assumed of addresses: words may overlap, and a store into the middle
of a word changes it. What a store leaves alone is stated with explicit
disjointness (`peek_poke_disjoint`).
-/

namespace Chronos.Lib

/-- The memory of a process. -/
structure Memory where
  mapped : Nat → Bool
  byte : Nat → Fin 256
  null_unmapped : mapped 0 = false

namespace Memory

/-- A memory with nothing mapped. -/
def empty : Memory := ⟨fun _ => false, fun _ => 0, rfl⟩

/-- All of the `n` addresses from `a` are mapped. -/
def Mapped (m : Memory) (a n : Nat) : Prop := ∀ i < n, m.mapped (a + i) = true

instance (m : Memory) (a n : Nat) : Decidable (m.Mapped a n) :=
  inferInstanceAs (Decidable (∀ i < n, m.mapped (a + i) = true))

/-- Write one byte. -/
def setByte (m : Memory) (a : Nat) (b : Fin 256) : Memory :=
  { m with byte := fun x => if x = a then b else m.byte x }

/-- The `n`-byte word at `a`. -/
def peek (m : Memory) : Nat → Nat → Nat
  | 0, _ => 0
  | n + 1, a => (m.byte a).val + 256 * m.peek n (a + 1)

/-- Store the low `n` bytes of `v` at `a`. -/
def poke (m : Memory) : Nat → Nat → Nat → Memory
  | 0, _, _ => m
  | n + 1, a, v => (m.setByte a (Fin.ofNat 256 v)).poke n (a + 1) (v / 256)

/-- Map the `len` addresses from `lo`, zero-filled. -/
def map (m : Memory) (lo len : Nat) : Memory where
  mapped x := m.mapped x || (x != 0 && decide (lo ≤ x) && decide (x < lo + len))
  byte x := if lo ≤ x ∧ x < lo + len then 0 else m.byte x
  null_unmapped := by simp [m.null_unmapped]

variable {m : Memory} {a b n k v : Nat}

theorem Mapped.mono {a' n' : Nat} (h : m.Mapped a n) (ha : a ≤ a') (hn : a' + n' ≤ a + n) :
    m.Mapped a' n' := by
  intro i hi
  have := h (a' - a + i) (by omega)
  rwa [show a + (a' - a + i) = a' + i by omega] at this

/-- A mapped word is not at the null pointer. -/
theorem Mapped.pos (h : m.Mapped a n) (hn : 0 < n) : 0 < a := by
  rcases Nat.eq_zero_or_pos a with rfl | ha
  · have := h 0 hn
    simp [m.null_unmapped] at this
  · exact ha

@[simp] theorem poke_mapped : (m.poke n a v).mapped = m.mapped := by
  induction n generalizing m a v with
  | zero => rfl
  | succ n ih => rw [poke, ih]; rfl

@[simp] theorem mapped_poke : (m.poke n a v).Mapped b k ↔ m.Mapped b k := by
  simp [Mapped]

@[simp] theorem mapped_setByte {x : Fin 256} : (m.setByte a x).Mapped b k ↔ m.Mapped b k := Iff.rfl

theorem poke_byte (x : Nat) :
    (m.poke n a v).byte x =
      if a ≤ x ∧ x < a + n then Fin.ofNat 256 (v / 256 ^ (x - a)) else m.byte x := by
  induction n generalizing m a v with
  | zero => rw [if_neg (by omega)]; rfl
  | succ n ih =>
    rw [poke, ih]
    by_cases hx : x = a
    · subst hx
      rw [if_neg (by omega), if_pos (by omega)]
      simp [setByte]
    · by_cases hin : a + 1 ≤ x ∧ x < a + 1 + n
      · rw [if_pos hin, if_pos (by omega), Nat.div_div_eq_div_mul,
          show x - a = x - (a + 1) + 1 by omega, pow_succ, mul_comm]
      · rw [if_neg hin, if_neg (by omega)]
        simp [setByte, hx]

theorem peek_congr {m' : Memory} (h : ∀ x, a ≤ x → x < a + n → m'.byte x = m.byte x) :
    m'.peek n a = m.peek n a := by
  induction n generalizing a with
  | zero => rfl
  | succ n ih =>
    rw [peek, peek, h a (by omega) (by omega), ih fun x h1 h2 => h x (by omega) (by omega)]

theorem peek_lt : m.peek n a < 256 ^ n := by
  induction n generalizing a with
  | zero => simp [peek]
  | succ n ih =>
    have hb := (m.byte a).isLt
    have := @ih (a + 1)
    rw [peek, pow_succ]
    omega

/-- A word reads back as stored, cut to its width. -/
theorem peek_poke_self : (m.poke n a v).peek n a = v % 256 ^ n := by
  induction n generalizing m a v with
  | zero => simp [peek, Nat.mod_one]
  | succ n ih =>
    have hbyte : (m.poke (n + 1) a v).byte a = Fin.ofNat 256 v := by
      rw [poke_byte, if_pos (by omega)]
      simp
    rw [peek, hbyte, poke, ih, pow_succ, mul_comm (256 ^ n), Nat.mod_mul]
    simp [Fin.ofNat]

/-- A store leaves the words it does not overlap alone. -/
theorem peek_poke_disjoint (h : b + k ≤ a ∨ a + n ≤ b) :
    (m.poke n a v).peek k b = m.peek k b :=
  peek_congr fun x h1 h2 => by rw [poke_byte, if_neg (by omega)]

theorem peek_map_disjoint {lo len : Nat} (h : b + k ≤ lo ∨ lo + len ≤ b) :
    (m.map lo len).peek k b = m.peek k b :=
  peek_congr fun x h1 h2 => by simp [map, show ¬(lo ≤ x ∧ x < lo + len) by omega]

/-- Freshly mapped words are zero. -/
theorem peek_map_inside {lo len : Nat} (h1 : lo ≤ b) (h2 : b + k ≤ lo + len) :
    (m.map lo len).peek k b = 0 := by
  induction k generalizing b with
  | zero => rfl
  | succ k ih =>
    rw [peek, ih (by omega) (by omega)]
    simp [map, show lo ≤ b ∧ b < lo + len by omega]

theorem Mapped.map {lo len : Nat} (h : m.Mapped b k) : (m.map lo len).Mapped b k := by
  intro i hi
  simp [Memory.map, h i hi]

theorem mapped_map_inside {lo len : Nat} (hpos : 0 < b) (h1 : lo ≤ b) (h2 : b + k ≤ lo + len) :
    (m.map lo len).Mapped b k := by
  intro i hi
  simp only [Memory.map, Bool.or_eq_true, Bool.and_eq_true, bne_iff_ne, decide_eq_true_eq]
  omega

/-- The null pointer cannot be followed. -/
theorem not_mapped_null (hn : 0 < n) : ¬m.Mapped 0 n := fun h => by
  have := h.pos hn
  omega

end Memory

end Chronos.Lib
