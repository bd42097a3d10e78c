import Mathlib.Data.List.Basic

/-!
# Folds that may fail

A fold in `Except` runs a step over a list until one fails. The rule for its
invariants is in terms of the part of the list that was processed.
-/

namespace Chronos.Lib

variable {ε α β : Type} {step : β → α → Except ε β} {s s' : β} {l : List α}

theorem bind_eq_ok {x : Except ε α} {g : α → Except ε β} {b : β} :
    x >>= g = .ok b ↔ ∃ a, x = .ok a ∧ g a = .ok b := by
  cases x with
  | error e => simp [bind, Except.bind]
  | ok a => simp [bind, Except.bind]

theorem foldlM_cons_eq_ok {a : α} : (a :: l).foldlM step s = .ok s' ↔
    ∃ s₁, step s a = .ok s₁ ∧ l.foldlM step s₁ = .ok s' := by
  rw [List.foldlM_cons, bind_eq_ok]

theorem foldlM_nil_eq_ok : ([] : List α).foldlM step s = .ok s' ↔ s = s' := by
  simp [pure, Except.pure]

/-- **The invariant rule**: what holds before the first element, and is kept by a
step on the next one, holds of the whole list. -/
theorem foldlM_invariant (P : List α → β → Prop) (hstart : P [] s)
    (hstep : ∀ done a t t', P done t → step t a = .ok t' → P (done ++ [a]) t')
    (h : l.foldlM step s = .ok s') : P l s' := by
  have hrun : ∀ (rest done : List α) (t : β), P done t → rest.foldlM step t = .ok s' →
      P (done ++ rest) s' := by
    intro rest
    induction rest with
    | nil =>
      intro done t hP hfold
      rw [foldlM_nil_eq_ok] at hfold
      rwa [List.append_nil, ← hfold]
    | cons a rest ih =>
      intro done t hP hfold
      obtain ⟨t₁, hone, hrest⟩ := foldlM_cons_eq_ok.mp hfold
      have := ih (done ++ [a]) t₁ (hstep done a t t₁ hP hone) hrest
      rwa [List.append_assoc] at this
  exact hrun l [] s hstart h

end Chronos.Lib
