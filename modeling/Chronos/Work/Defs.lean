import Mathlib.Algebra.Order.Round
import Mathlib.Data.Rat.Floor

/-!
# Working for a given time

`do_work_slope` of `workload.c`. The slope is taken as an exact rational number, and an
`unsigned long` has 64 bits. The abort flag may be set at any time by another thread, so
that each check of it has a value of its own.
-/

namespace Chronos.Work

/-- Check the abort pointer every this many microseconds. -/
abbrev ABORT_CHECK_US : Nat := 1

/-- The conversion to `unsigned long`, which truncates. It is undefined for a number that
is out of range. -/
def toUnsignedLong (x : ℚ) : Option Nat :=
  if -1 < x ∧ x < 2 ^ 64 then some ⌊x⌋.toNat else none

/-- What can be seen of a run: a check of the abort flag, and what it found, or a call of
the workload's `do_work` with so many iterations. -/
inductive Event
  | check (aborted : Bool)
  | work (iterations : Nat)
  deriving DecidableEq, Repr

/-- What a run has done so far, and what it has returned if it has. -/
structure Outcome where
  events : List Event
  returned : Option Bool
  deriving DecidableEq, Repr

section

variable (flag : Nat → Bool) (iterations itersPerAbortCheck : Nat)

/-- From the end of the loop on, where `checks` is the number of checks before it. -/
def remainder (checks i : Nat) : Outcome :=
  let rest := if !flag checks && i < iterations then [Event.work (iterations - i)] else []
  let aborted := flag (checks + 1)
  ⟨.check (flag checks) :: (rest ++ [.check aborted]), some aborted⟩

/-- The loop and what comes after it. It has not returned when `rounds` iterations of the
loop do not suffice. -/
def workLoop : (rounds checks i : Nat) → Outcome
  | 0, _, _ => ⟨[], none⟩
  | rounds + 1, checks, i =>
    if !flag checks && (i + itersPerAbortCheck) % 2 ^ 64 < iterations then
      let later := workLoop rounds (checks + 1) ((i + itersPerAbortCheck) % 2 ^ 64)
      ⟨.check (flag checks) :: .work itersPerAbortCheck :: later.events, later.returned⟩
    else
      let later := remainder flag iterations (checks + 1) i
      ⟨.check (flag checks) :: later.events, later.returned⟩

end

/-- `do_work_slope`, where `flag` is what the checks of the abort flag find. There is no
outcome where a conversion is undefined. -/
def doWorkSlope (flag : Nat → Bool) (usage : Nat) (execSlope : ℚ) (rounds : Nat) :
    Option Outcome := do
  let iterations ← toUnsignedLong (usage * execSlope)
  let itersPerAbortCheck ← toUnsignedLong (execSlope * ABORT_CHECK_US)
  return workLoop flag iterations itersPerAbortCheck rounds 0 0

/-- The iterations of a call of `do_work`. -/
def Event.iterations : Event → Nat
  | check _ => 0
  | work n => n

/-- All the iterations that have been passed to `do_work`. -/
def Outcome.total (o : Outcome) : Nat := (o.events.map Event.iterations).sum

end Chronos.Work
