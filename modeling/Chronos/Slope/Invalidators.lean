import Mathlib.Data.List.Nodup
import Chronos.Lib.Scanf
import Chronos.Work.Defs

/-!
# The cache invalidators

While `update_slopes` measures on processor 0, `start_invalidators` places up to four threads
on the other processors, evenly spaced from the last one downwards. Each of them pins itself
with a mask that is an `unsigned long`, so only processors below 64 can be asked for.
-/

namespace Chronos.Slope

open Lib

abbrev MAX_INVALIDATORS : Int := 4

/-- `active_invalidators` -/
def activeInvalidators (numCpus : Int) : Int :=
  if numCpus - 1 > MAX_INVALIDATORS then MAX_INVALIDATORS else numCpus - 1

/-- `(num_cpus - 1) - i * (num_cpus - 1) / active_invalidators`, unless the product overflows
or the divisor is zero. -/
def invalidatorCpu (numCpus i : Int) : Option Int :=
  let product := i * (numCpus - 1)
  if activeInvalidators numCpus = 0 ∨ ¬(-2 ^ 31 ≤ product ∧ product < 2 ^ 31) then none
  else some ((numCpus - 1) - product.tdiv (activeInvalidators numCpus))

/-- The `cpu` of each invalidator that `start_invalidators` starts. -/
def startInvalidators (numProcessors : Nat) : List (Option Int) :=
  let numCpus := toInt numProcessors
  (List.range (activeInvalidators numCpus).toNat).map fun i : Nat => invalidatorCpu numCpus i

/-- The affinity mask that `invalidate` asks for: `(unsigned long) pow(2, cpu)`. -/
def invalidateMask (cpu : Int) : Option Nat := Work.toUnsignedLong (2 ^ cpu)

/-- The affinity masks of the invalidators. -/
def invalidatorMasks (numProcessors : Nat) : List (Option Nat) :=
  (startInvalidators numProcessors).map fun cpu => cpu.bind invalidateMask

/-! ## The placement -/

/-- Multiples that are at least a divisor apart have different quotients. -/
theorem mul_div_strictMono {i j t a : Nat} (ha : 0 < a) (hat : a ≤ t) (hij : i < j) :
    i * t / a < j * t / a := by
  calc i * t / a < i * t / a + 1 := Nat.lt_succ_self _
    _ = (i * t + a) / a := (Nat.add_div_right _ ha).symm
    _ ≤ j * t / a := by
      apply Nat.div_le_div_right
      calc i * t + a ≤ i * t + t := Nat.add_le_add_left hat _
        _ = (i + 1) * t := (Nat.succ_mul i t).symm
        _ ≤ j * t := Nat.mul_le_mul_right t hij

/-- The processor of the `i`th invalidator, for `active` of them below the last processor. -/
def placed (last active i : Nat) : Nat := last - i * last / active

theorem mul_div_lt {last active i : Nat} (hactive : active ≤ last) (hi : i < active) :
    i * last / active < last := by
  apply Nat.div_lt_of_lt_mul
  exact Nat.mul_lt_mul_of_pos_right hi (by omega)

theorem placed_bounds {last active i : Nat} (hactive : active ≤ last) (hi : i < active) :
    1 ≤ placed last active i ∧ placed last active i ≤ last :=
  ⟨Nat.sub_pos_of_lt (mul_div_lt hactive hi), Nat.sub_le _ _⟩

/-- Later invalidators are on lower processors. -/
theorem placed_strictAnti {last active i j : Nat} (hactive : active ≤ last) (hij : i < j)
    (hj : j < active) : placed last active j < placed last active i := by
  have hlt : i * last / active < j * last / active :=
    mul_div_strictMono (Nat.zero_lt_of_lt hj) hactive hij
  exact Nat.sub_lt_sub_left (hlt.trans (mul_div_lt hactive hj)) hlt

/-- The processors of all the invalidators. -/
def placement (n : Nat) : List Nat :=
  (List.range (min 4 (n - 1))).map (placed (n - 1) (min 4 (n - 1)))

theorem nodup_placement (n : Nat) : (placement n).Nodup := by
  refine List.Nodup.map_on ?_ List.nodup_range
  intro i hi j hj heq
  rw [List.mem_range] at hi hj
  have hactive := Nat.min_le_right 4 (n - 1)
  rcases Nat.lt_trichotomy i j with hij | hij | hij
  · exact absurd heq (placed_strictAnti hactive hij hj).ne'
  · exact hij
  · exact absurd heq (placed_strictAnti hactive hij hi).ne

theorem placement_bounds {n cpu : Nat} (h : cpu ∈ placement n) : 1 ≤ cpu ∧ cpu < n := by
  obtain ⟨i, hi, rfl⟩ := List.mem_map.mp h
  have := placed_bounds (Nat.min_le_right 4 (n - 1)) (List.mem_range.mp hi)
  omega

theorem length_placement (n : Nat) : (placement n).length = min 4 (n - 1) := by
  rw [placement, List.length_map, List.length_range]

/-! ## The source's formula -/

section

variable {n : Nat}

theorem activeInvalidators_eq (hn : 1 ≤ n) : activeInvalidators n = (min 4 (n - 1) : Nat) := by
  unfold activeInvalidators MAX_INVALIDATORS
  split <;> omega

theorem invalidatorCpu_eq (hn : 1 ≤ n) (hlimit : n < 2 ^ 29) {i : Nat} (hi : i < min 4 (n - 1)) :
    invalidatorCpu n i = some ((placed (n - 1) (min 4 (n - 1)) i : Nat) : Int) := by
  have hlast : (n : Int) - 1 = (n - 1 : Nat) := by omega
  have hproduct : i * (n - 1) < 2 ^ 31 := by
    have : i * (n - 1) ≤ 4 * (n - 1) := Nat.mul_le_mul_right _ (by omega)
    omega
  have hquotient := mul_div_lt (Nat.min_le_right 4 (n - 1)) hi
  have hdefined : ¬(((min 4 (n - 1) : Nat) : Int) = 0 ∨
      ¬(-2 ^ 31 ≤ ((i * (n - 1) : Nat) : Int) ∧ ((i * (n - 1) : Nat) : Int) < 2 ^ 31)) := by
    generalize i * (n - 1) = product at *
    omega
  rw [invalidatorCpu, activeInvalidators_eq hn, hlast, ← Int.natCast_mul, if_neg hdefined,
    Int.tdiv_eq_ediv_of_nonneg (Int.natCast_nonneg _), ← Int.natCast_div, placed,
    Int.ofNat_sub hquotient.le]

/-- `start_invalidators` computes the placement. -/
theorem startInvalidators_eq (hn : 1 ≤ n) (hlimit : n < 2 ^ 29) :
    startInvalidators n = (placement n).map fun cpu : Nat => some (cpu : Int) := by
  have hint : toInt n = n := toInt_eq_self (by omega) (by omega)
  rw [startInvalidators, hint, activeInvalidators_eq hn, Int.toNat_natCast, placement, List.map_map]
  apply List.map_congr_left
  intro i hi
  exact invalidatorCpu_eq hn hlimit (List.mem_range.mp hi)

/-! ## The masks -/

theorem invalidateMask_eq (cpu : Nat) :
    invalidateMask cpu = if cpu < 64 then some (2 ^ cpu) else none := by
  have hpos : (-1 : ℚ) < 2 ^ cpu := lt_of_lt_of_le (by norm_num) (by positivity : (0 : ℚ) ≤ 2 ^ cpu)
  have hlt : (2 : ℚ) ^ cpu < 2 ^ 64 ↔ cpu < 64 := pow_lt_pow_iff_right₀ (by norm_num)
  rw [invalidateMask, Work.toUnsignedLong, zpow_natCast]
  simp only [hpos, hlt, true_and]
  congr
  exact_mod_cast Int.toNat_natCast (2 ^ cpu)

theorem invalidatorMasks_eq (hn : 1 ≤ n) (hlimit : n < 2 ^ 29) :
    invalidatorMasks n =
      (placement n).map fun cpu : Nat => if cpu < 64 then some (2 ^ cpu) else none := by
  rw [invalidatorMasks, startInvalidators_eq hn hlimit, List.map_map]
  apply List.map_congr_left
  intro cpu _
  exact invalidateMask_eq cpu

end

/-- The masks ask for as many processors as there are invalidators, for different ones, and
never for processor 0. -/
def PinnedApart (n : Nat) : Prop :=
  ∃ cpus : List Nat, invalidatorMasks n = cpus.map (fun cpu : Nat => some (2 ^ cpu)) ∧
    cpus.length = min 4 (n - 1) ∧ cpus.Nodup ∧ ∀ cpu ∈ cpus, 1 ≤ cpu ∧ cpu < n

/-- **The invalidators are placed apart** on every machine, but they are only pinned there
when no processor is beyond the mask. -/
theorem pinnedApart_iff {n : Nat} (hn : 1 ≤ n) (hlimit : n < 2 ^ 29) :
    (∃ cpus : List Nat, startInvalidators n = cpus.map (fun cpu : Nat => some (cpu : Int)) ∧
      cpus.length = min 4 (n - 1) ∧ cpus.Nodup ∧ ∀ cpu ∈ cpus, 1 ≤ cpu ∧ cpu < n) ∧
    (PinnedApart n ↔ n ≤ 64) := by
  refine ⟨⟨placement n, startInvalidators_eq hn hlimit, length_placement n, nodup_placement n,
    fun _ => placement_bounds⟩, ?_⟩
  constructor
  · intro hpinned
    by_contra hmany
    obtain ⟨cpus, hmasks, -, -, -⟩ := hpinned
    -- the first invalidator is on the last processor
    have hfirst : n - 1 ∈ placement n := by
      refine List.mem_map.mpr ⟨0, List.mem_range.mpr (by omega), ?_⟩
      simp [placed]
    have hnone : none ∈ invalidatorMasks n := by
      rw [invalidatorMasks_eq hn hlimit]
      exact List.mem_map.mpr ⟨n - 1, hfirst, if_neg (by omega)⟩
    rw [hmasks] at hnone
    obtain ⟨cpu, -, hcpu⟩ := List.mem_map.mp hnone
    cases hcpu
  · intro hfew
    refine ⟨placement n, ?_, length_placement n, nodup_placement n, fun _ => placement_bounds⟩
    rw [invalidatorMasks_eq hn hlimit]
    apply List.map_congr_left
    intro cpu hcpu
    have := placement_bounds hcpu
    exact if_pos (by omega)

/-- With 65 processors the first invalidator is for processor 64. -/
theorem not_pinnedApart_sixtyFive : ¬PinnedApart 65 := by
  intro hpinned
  obtain ⟨cpus, hmasks, -, -, -⟩ := hpinned
  have hnone : none ∈ invalidatorMasks 65 := by
    rw [invalidatorMasks_eq (by norm_num) (by norm_num)]
    decide
  rw [hmasks] at hnone
  obtain ⟨cpu, -, hcpu⟩ := List.mem_map.mp hnone
  cases hcpu

theorem pinnedApart_iff_six :
    (∃ cpus : List Nat, startInvalidators 6 = cpus.map (fun cpu : Nat => some (cpu : Int)) ∧
      cpus.length = min 4 (6 - 1) ∧ cpus.Nodup ∧ ∀ cpu ∈ cpus, 1 ≤ cpu ∧ cpu < 6) ∧
    (PinnedApart 6 ↔ 6 ≤ 64) :=
  pinnedApart_iff (by norm_num) (by norm_num)

end Chronos.Slope
