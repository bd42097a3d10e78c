import Mathlib.Data.List.Basic

/-!
# Properly nested acquisitions

A sequence of acquisitions and releases is replayed on the stack of what is held:
an acquisition pushes, a release must name the top and pops it. The sequence is
nested when the replay from the empty stack ends with the empty stack, so that
everything acquired is released exactly once, in reverse order, and nothing else
is released.
-/

namespace Chronos.Lib

variable {α : Type*}

inductive Bracket (α : Type*)
  | acquire (a : α)
  | release (a : α)
  deriving DecidableEq, Repr

section Replay

variable [DecidableEq α]

/-- The stack after the sequence, `none` when a release does not match. -/
def replay : List α → List (Bracket α) → Option (List α)
  | held, [] => some held
  | held, .acquire a :: bs => replay (a :: held) bs
  | [], .release _ :: _ => none
  | b :: held, .release a :: bs => if a = b then replay held bs else none

def Nested (bs : List (Bracket α)) : Prop := replay [] bs = some []

instance (bs : List (Bracket α)) : Decidable (Nested bs) :=
  inferInstanceAs (Decidable (replay [] bs = some []))

variable {held : List α} {a : α} {l : List α} {bs cs : List (Bracket α)}

@[simp] theorem replay_nil : replay held [] = some held := by
  cases held <;> rfl

@[simp] theorem replay_acquire : replay held (.acquire a :: bs) = replay (a :: held) bs := by
  cases held <;> rfl

@[simp] theorem replay_nil_release : replay [] (.release a :: bs) = none := rfl

@[simp] theorem replay_cons_release : replay (a :: held) (.release a :: bs) = replay held bs :=
  if_pos rfl

theorem replay_append :
    replay held (bs ++ cs) = (replay held bs).bind fun h => replay h cs := by
  induction bs generalizing held with
  | nil => simp
  | cons b bs ih =>
    cases b with
    | acquire a => simpa using ih
    | release a =>
      cases held with
      | nil => rfl
      | cons b held =>
        by_cases h : a = b
        · subst h
          simpa using ih
        · simp [replay, h]

theorem replay_acquires : replay held (l.map .acquire) = some (l.reverse ++ held) := by
  induction l generalizing held with
  | nil => simp
  | cons a l ih => simp [ih]

theorem replay_releases : replay (l ++ held) (l.map .release) = some held := by
  induction l with
  | nil => simp
  | cons a l ih => simpa using ih

namespace Nested

theorem nil : Nested ([] : List (Bracket α)) := rfl

theorem append (h : Nested bs) (h' : Nested cs) : Nested (bs ++ cs) := by
  unfold Nested at h h' ⊢
  rw [replay_append, h]
  exact h'

/-- What is acquired in order and released in reverse order is nested. -/
theorem acquires_releases (l : List α) :
    Nested (l.map .acquire ++ l.reverse.map .release) := by
  unfold Nested
  have h : replay (l.reverse ++ []) (l.reverse.map .release) = some [] := replay_releases
  rw [replay_append, replay_acquires]
  exact h

end Nested

/-- A sequence that begins with a release is not nested. -/
theorem not_nested_release : ¬Nested (.release a :: bs) := by
  simp [Nested]

end Replay

end Chronos.Lib
