import Mathlib.Logic.Function.Basic
import Mathlib.Data.List.Basic

/-!
# Writes to a directory

Files are emptied and get lines appended. What a file has after some writes is up to those that
name it. A program that is killed has made a prefix of its writes, and what holds after each
prefix of two programs' writes holds after each prefix of both, one behind the other.
-/

namespace Chronos.Lib

/-- The contents of the files that exist. -/
abbrev Directory (N L : Type*) := N → Option (List L)

/-- Both make a file that does not exist. -/
inductive Write (N L : Type*)
  | truncate (name : N)
  | append (name : N) (line : L)
  deriving DecidableEq, Repr

namespace Write

variable {N L : Type*}

def name : Write N L → N
  | .truncate name | .append name _ => name

/-- A file is written anew, line by line. -/
def rewrite (name : N) (lines : List L) : List (Write N L) :=
  .truncate name :: lines.map (.append name)

theorem name_of_mem_rewrite {name : N} {lines : List L} {w : Write N L}
    (h : w ∈ rewrite name lines) : w.name = name := by
  rcases List.mem_cons.mp h with rfl | h
  · rfl
  · obtain ⟨line, -, rfl⟩ := List.mem_map.mp h
    rfl

variable [DecidableEq N]

def apply (d : Directory N L) : Write N L → Directory N L
  | .truncate name => Function.update d name (some [])
  | .append name line => Function.update d name (some ((d name).getD [] ++ [line]))

theorem apply_truncate {d : Directory N L} {name : N} :
    apply d (.truncate name) name = some [] :=
  Function.update_self _ _ _

theorem apply_append {d : Directory N L} {name : N} {old : List L} (h : d name = some old)
    (line : L) : apply d (.append name line) name = some (old ++ [line]) := by
  simp [apply, h]

theorem apply_of_ne {d : Directory N L} {w : Write N L} {name : N} (h : w.name ≠ name) :
    apply d w name = d name := by
  cases w <;> exact Function.update_of_ne (Ne.symm h) _ _

end Write

namespace Directory

variable {N L : Type*} [DecidableEq N] {d : Directory N L} {ws ws' : List (Write N L)} {name : N}
  {lines : List L}

/-- What writes make of a directory. -/
def after (d : Directory N L) (ws : List (Write N L)) : Directory N L := ws.foldl Write.apply d

@[simp] theorem after_nil : after d [] = d := rfl

@[simp] theorem after_cons {w : Write N L} : after d (w :: ws) = after (w.apply d) ws := rfl

theorem after_append : after d (ws ++ ws') = after (after d ws) ws' :=
  List.foldl_append

/-- A file that no write names. -/
theorem after_of_forall_ne (h : ∀ w ∈ ws, w.name ≠ name) : after d ws name = d name := by
  induction ws generalizing d with
  | nil => rfl
  | cons w ws ih =>
    rw [after_cons, ih fun v hv => h v (List.mem_cons_of_mem _ hv),
      Write.apply_of_ne (h w List.mem_cons_self)]

/-- What becomes of a file is up to what it was. -/
theorem after_congr {d' : Directory N L} (h : d name = d' name) :
    after d ws name = after d' ws name := by
  induction ws generalizing d d' with
  | nil => exact h
  | cons w ws ih =>
    apply ih
    by_cases hw : w.name = name
    · subst hw
      cases w with
      | truncate name => exact Write.apply_truncate.trans Write.apply_truncate.symm
      | append name line =>
        change d name = d' name at h
        simp [Write.apply, Write.name, h]
    · rw [Write.apply_of_ne hw, Write.apply_of_ne hw, h]

theorem after_appends (old : List L) (h : d name = some old) :
    after d (lines.map (.append name)) name = some (old ++ lines) := by
  induction lines generalizing d old with
  | nil => rw [List.map_nil, after_nil, h, List.append_nil]
  | cons line lines ih =>
    rw [List.map_cons, after_cons, ih _ (Write.apply_append h line), List.append_assoc]
    rfl

theorem after_rewrite : after d (Write.rewrite name lines) name = some lines := by
  rw [Write.rewrite, after_cons, after_appends [] Write.apply_truncate, List.nil_append]

/-- Cut off, a rewrite has not begun, or has left some of the lines. -/
theorem after_take_rewrite (k : Nat) :
    after d ((Write.rewrite name lines).take k) name = d name ∨
      ∃ j, after d ((Write.rewrite name lines).take k) name = some (lines.take j) := by
  cases k with
  | zero => exact .inl rfl
  | succ k =>
    refine .inr ⟨k, ?_⟩
    rw [Write.rewrite, List.take_succ_cons, ← List.map_take]
    exact after_rewrite

/-- After every prefix of writes. -/
def Always (P : Directory N L → Prop) (d : Directory N L) (ws : List (Write N L)) : Prop :=
  ∀ k, P (after d (ws.take k))

variable {P : Directory N L → Prop}

theorem Always.at_end (h : Always P d ws) : P (after d ws) := by
  simpa using h ws.length

theorem always_nil : Always P d [] ↔ P d := by
  simp [Always]

theorem Always.append (h : Always P d ws) (h' : Always P (after d ws) ws') :
    Always P d (ws ++ ws') := by
  intro k
  rw [List.take_append]
  rcases Nat.le_total k ws.length with hle | hle
  · rw [Nat.sub_eq_zero_of_le hle, List.take_zero, List.append_nil]
    exact h k
  · rw [List.take_of_length_le hle, after_append]
    exact h' _

end Directory

end Chronos.Lib
