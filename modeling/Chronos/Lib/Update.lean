import Mathlib.Algebra.BigOperators.Group.Finset.Basic

/-!
# Sums over tables

A table of small states, one for each index, is updated at one index at a time.
A sum over the table then changes by what the one entry contributes.

A table that has the values of a list of entries gives these entries back.
-/

namespace Chronos.Lib

variable {ι α : Type*} [DecidableEq ι] [Fintype ι]

theorem sum_update (g : ι → α → Nat) (f : ι → α) (i : ι) (v : α) :
    (∑ j, g j (Function.update f i v j)) + g i (f i) = (∑ j, g j (f j)) + g i v := by
  rw [← Finset.add_sum_erase Finset.univ _ (Finset.mem_univ i),
    ← Finset.add_sum_erase Finset.univ (fun j => g j (f j)) (Finset.mem_univ i),
    Function.update_self]
  have hrest : ∑ j ∈ Finset.univ.erase i, g j (Function.update f i v j) =
      ∑ j ∈ Finset.univ.erase i, g j (f j) := by
    refine Finset.sum_congr rfl fun j hj => ?_
    rw [Function.update_of_ne (Finset.ne_of_mem_erase hj)]
  rw [hrest]
  omega

/-- An update that lowers an entry's rank lowers the sum. -/
theorem sum_update_lt (g : ι → α → Nat) (f : ι → α) {i : ι} {v : α} (h : g i v < g i (f i)) :
    ∑ j, g j (Function.update f i v j) < ∑ j, g j (f j) := by
  have := sum_update g f i v
  omega

/-- An update that keeps an entry's rank keeps the sum. -/
theorem sum_update_eq (g : ι → α → Nat) (f : ι → α) {i : ι} {v : α} (h : g i v = g i (f i)) :
    ∑ j, g j (Function.update f i v j) = ∑ j, g j (f j) := by
  have := sum_update g f i v
  omega

/-- The entries of a table at their indices, in whatever order these are. -/
theorem perm_entries {κ β : Type*} {f : κ → β} {indices : List κ} {entries : List (κ × β)}
    (hperm : indices.Perm (entries.map Prod.fst)) (h : ∀ e ∈ entries, f e.1 = e.2) :
    (indices.map fun i => (i, f i)).Perm entries := by
  refine (hperm.map _).trans (List.Perm.of_eq ?_)
  rw [List.map_map, List.map_congr_left (g := id), List.map_id]
  exact fun e he => Prod.ext rfl (h e he)

end Chronos.Lib
