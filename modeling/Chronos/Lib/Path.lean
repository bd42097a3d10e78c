import Mathlib.Data.List.Basic
import Mathlib.Data.List.Induction
import Mathlib.Logic.Relation

/-!
# Labelled paths

A path of a labelled step relation with the labels along it. A quantity that one
kind of label raises by one, and no other label changes, counts these labels. A
log is well ordered when each entry fits what came before it.
-/

namespace Chronos.Lib

variable {σ α : Type*}

/-- Each entry of a log is in the relation `P` to the entries before it. -/
def EachAfter (P : List α → α → Prop) (log : List α) : Prop :=
  ∀ before a after, log = before ++ a :: after → P before a

theorem eachAfter_nil (P : List α → α → Prop) : EachAfter P [] := by
  intro before a after h
  simp at h

theorem EachAfter.snoc {P : List α → α → Prop} {log : List α} {a : α} (h : EachAfter P log)
    (ha : P log a) : EachAfter P (log ++ [a]) := by
  intro before b after heq
  rcases List.eq_nil_or_concat after with rfl | ⟨after, c, rfl⟩
  · obtain ⟨rfl, hlast⟩ := List.append_inj' heq rfl
    cases hlast
    exact ha
  · rw [List.concat_eq_append, ← List.cons_append, ← List.append_assoc] at heq
    obtain ⟨rfl, -⟩ := List.append_inj' heq rfl
    exact h before b after rfl

/-- The states reached from `s`, with the labels on the way. -/
inductive Path (step : σ → α → σ → Prop) (s : σ) : List α → σ → Prop
  | nil : Path step s [] s
  | snoc {as : List α} {s' s'' : σ} {a : α} (h : Path step s as s') (hs : step s' a s'') :
    Path step s (as ++ [a]) s''

namespace Path

variable {step : σ → α → σ → Prop} {s s' : σ} {as bs : List α}

theorem trans {s'' : σ} (h : Path step s as s') (h' : Path step s' bs s'') :
    Path step s (as ++ bs) s'' := by
  induction h' with
  | nil => rwa [List.append_nil]
  | snoc _ hs ih =>
    rw [← List.append_assoc]
    exact ih.snoc hs

theorem single {a : α} (h : step s a s') : Path step s [a] s' := nil.snoc h

/-- **The replay rule**: what a function that makes steps of the relation makes of a list of
labels is a path. -/
theorem of_foldlM {next : σ → α → Option σ} (hnext : ∀ {s a s'}, next s a = some s' → step s a s')
    (h : as.foldlM next s = some s') : Path step s as s' := by
  induction as generalizing s with
  | nil =>
    obtain rfl := Option.some.inj h
    exact nil
  | cons a as ih =>
    rw [List.foldlM_cons, Option.bind_eq_bind, Option.bind_eq_some_iff] at h
    obtain ⟨s₁, hone, hrest⟩ := h
    exact (single (hnext hone)).trans (ih hrest)

/-- A path splits where its labels do. -/
theorem split (h : Path step s (as ++ bs) s') :
    ∃ s₁, Path step s as s₁ ∧ Path step s₁ bs s' := by
  induction bs using List.reverseRecOn generalizing s' with
  | nil =>
    rw [List.append_nil] at h
    exact ⟨s', h, .nil⟩
  | append_singleton bs b ih =>
    generalize hcs : as ++ (bs ++ [b]) = cs at h
    cases h with
    | nil => simp at hcs
    | snoc h hs =>
      rw [← List.append_assoc] at hcs
      obtain ⟨rfl, hb⟩ := List.append_inj' hcs rfl
      cases hb
      obtain ⟨s₁, hleft, hright⟩ := ih h
      exact ⟨s₁, hleft, hright.snoc hs⟩

theorem uncons {a : α} (h : Path step s (a :: as) s') :
    ∃ s₁, step s a s₁ ∧ Path step s₁ as s' := by
  have h' : Path step s ([a] ++ as) s' := h
  obtain ⟨s₁, hone, hrest⟩ := h'.split
  generalize hcs : [a] = cs at hone
  cases hone with
  | nil => cases hcs
  | @snoc cs s₂ _ b hnil hs =>
    have hcs' : [] ++ [a] = cs ++ [b] := hcs
    obtain ⟨rfl, hb⟩ := List.append_inj' hcs' rfl
    cases hb
    generalize hds : ([] : List α) = ds at hnil
    cases hnil with
    | nil => exact ⟨s₁, hs, hrest⟩
    | snoc => simp at hds

/-- **The invariant rule.** -/
theorem invariant {P : σ → Prop} (h : Path step s as s') (hstart : P s)
    (hstep : ∀ {s a s'}, P s → step s a s' → P s') : P s' := by
  induction h with
  | nil => exact hstart
  | snoc _ hs ih => exact hstep ih hs

/-- **The counting rule**: what starts at zero and is raised by one by the labels
in `p`, and kept by the others, is their number. -/
theorem countP_eq {P : σ → Prop} {p : α → Bool} {m : σ → Nat} (h : Path step s as s')
    (hstart : P s) (hzero : m s = 0) (hP : ∀ {s a s'}, P s → step s a s' → P s')
    (hm : ∀ {s a s'}, a ∈ as → P s → step s a s' → m s' = m s + if p a then 1 else 0) :
    as.countP p = m s' := by
  induction h with
  | nil => simp [hzero]
  | snoc h hs ih =>
    have hrest := ih fun ha => hm (List.mem_append_left _ ha)
    have hlast := hm (List.mem_append_right _ List.mem_cons_self) (h.invariant hstart hP) hs
    rw [List.countP_append, List.countP_singleton, hrest, hlast]

end Path

end Chronos.Lib
