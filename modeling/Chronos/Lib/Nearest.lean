import Mathlib.Data.List.MinMax
import Mathlib.Data.List.Nodup

/-!
# Nearest neighbours in a list

The elements of a list with the greatest key below a target and with the least key above
it, the first ones among equal keys. A search that passes through the list once sees them
by comparing each element with the neighbour so far.
-/

namespace Chronos.Lib

variable {α β : Type*} [LinearOrder β] (key : α → β) (target : β)

/-- The first element with the greatest key below the target. -/
def below (l : List α) : Option α := (l.filter (key · < target)).argmax key

/-- The first element with the least key above the target. -/
def above (l : List α) : Option α := (l.filter (target < key ·)).argmin key

variable {key target} {l l' : List α} {a b : α}

/-- What is above is below in the dual order. -/
theorem above_eq_below :
    above key target l = below (OrderDual.toDual ∘ key) (OrderDual.toDual target) l := rfl

/-! ## One element more -/

theorem below_concat_of_lt (h : key a < target) : below key target (l ++ [a]) =
    Option.casesOn (below key target l) (some a)
      fun b => if key b < key a then some a else some b := by
  rw [below, List.filter_append, List.filter_cons_of_pos (by simpa using h), List.filter_nil,
    List.argmax_concat]
  rfl

theorem below_concat_of_not_lt (h : ¬key a < target) :
    below key target (l ++ [a]) = below key target l := by
  rw [below, List.filter_append, List.filter_cons_of_neg (by simpa using h), List.filter_nil,
    List.append_nil]
  rfl

theorem above_concat_of_lt (h : target < key a) : above key target (l ++ [a]) =
    Option.casesOn (above key target l) (some a)
      fun b => if key a < key b then some a else some b := by
  rw [above, List.filter_append, List.filter_cons_of_pos (by simpa using h), List.filter_nil,
    List.argmin_concat]
  rfl

theorem above_concat_of_not_lt (h : ¬target < key a) :
    above key target (l ++ [a]) = above key target l := by
  rw [above, List.filter_append, List.filter_cons_of_neg (by simpa using h), List.filter_nil,
    List.append_nil]
  rfl

/-! ## The neighbours -/

theorem below_lt (h : below key target l = some b) : b ∈ l ∧ key b < target := by
  simpa using List.argmax_mem h

theorem lt_above (h : above key target l = some b) : b ∈ l ∧ target < key b := by
  simpa using List.argmin_mem h

theorem le_below (h : below key target l = some b) (ha : a ∈ l) (hlt : key a < target) :
    key a ≤ key b :=
  List.le_of_mem_argmax (List.mem_filter.mpr ⟨ha, by simpa using hlt⟩) h

theorem below_eq_none_iff : below key target l = none ↔ ∀ a ∈ l, ¬key a < target := by
  simp [below]

/-! ## The order of the list -/

/-- **The order does not matter** where the keys are different. -/
theorem below_perm (hperm : l.Perm l') (hnodup : (l.map key).Nodup) :
    below key target l = below key target l' := by
  cases h : below key target l with
  | none =>
    refine (below_eq_none_iff.mpr fun a ha => ?_).symm
    exact below_eq_none_iff.mp h a (hperm.mem_iff.mpr ha)
  | some b =>
    obtain ⟨hb, hbt⟩ := below_lt h
    cases h' : below key target l' with
    | none => exact absurd hbt (below_eq_none_iff.mp h' b (hperm.mem_iff.mp hb))
    | some b' =>
      obtain ⟨hb', hbt'⟩ := below_lt h'
      have hb'l := hperm.mem_iff.mpr hb'
      have heq := le_antisymm (le_below h' (hperm.mem_iff.mp hb) hbt) (le_below h hb'l hbt')
      rw [List.inj_on_of_nodup_map hnodup hb hb'l heq]

theorem above_perm (hperm : l.Perm l') (hnodup : (l.map key).Nodup) :
    above key target l = above key target l' := by
  rw [above_eq_below, above_eq_below]
  exact below_perm hperm hnodup

theorem find?_perm {γ : Type*} [DecidableEq γ] {key : α → γ} {target : γ} (hperm : l.Perm l')
    (hnodup : (l.map key).Nodup) :
    l.find? (key · = target) = l'.find? (key · = target) := by
  cases h : l.find? (key · = target) with
  | none =>
    refine (List.find?_eq_none.mpr fun a ha => ?_).symm
    exact List.find?_eq_none.mp h a (hperm.mem_iff.mpr ha)
  | some a =>
    cases h' : l'.find? (key · = target) with
    | none =>
      exact absurd (List.find?_some h)
        (List.find?_eq_none.mp h' a (hperm.mem_iff.mp (List.mem_of_find?_eq_some h)))
    | some a' =>
      have ha : key a = target := by simpa using List.find?_some h
      have ha' : key a' = target := by simpa using List.find?_some h'
      rw [List.inj_on_of_nodup_map hnodup (List.mem_of_find?_eq_some h)
        (hperm.mem_iff.mpr (List.mem_of_find?_eq_some h')) (ha.trans ha'.symm)]

end Chronos.Lib
