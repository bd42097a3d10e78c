import Mathlib.Data.List.Basic
import Mathlib.Logic.Function.Basic

/-!
# Addresses that are allocated

A load or a release of an address that is not allocated has no result, so that a run that has
one touches nothing that was freed and frees nothing twice. What is allocated after a number of
releases is what was allocated before, without them.
-/

namespace Chronos.Lib

variable {ι σ : Type*} [DecidableEq ι]

/-- What is found at an address. -/
def loadAt (live : ι → Bool) (mem : ι → σ) (a : ι) : Option σ :=
  if live a then some (mem a) else none

/-- `free(a)` -/
def freeAt (live : ι → Bool) (a : ι) : Option (ι → Bool) :=
  if live a then some (Function.update live a false) else none

/-- All but the addresses of a list. -/
def without (live : ι → Bool) (as : List ι) : ι → Bool := fun a => live a && !decide (a ∈ as)

variable {live : ι → Bool} {mem : ι → σ} {a : ι} {as bs : List ι}

omit [DecidableEq ι] in
theorem loadAt_of_live (h : live a = true) : loadAt live mem a = some (mem a) := if_pos h

@[simp] theorem without_nil : without live [] = live := by
  funext a
  simp [without]

theorem without_without : without (without live as) bs = without live (as ++ bs) := by
  funext a
  by_cases has : a ∈ as <;> by_cases hbs : a ∈ bs <;> simp [without, has, hbs]

theorem without_live (h : live a = true) (ha : a ∉ as) : without live as a = true := by
  simp [without, h, ha]

theorem without_congr (h : ∀ a, a ∈ as ↔ a ∈ bs) : without live as = without live bs := by
  funext a
  simp [without, h a]

theorem freeAt_of_live (h : live a = true) : freeAt live a = some (without live [a]) := by
  rw [freeAt, if_pos h, Option.some_inj]
  funext b
  by_cases hb : b = a
  · simp [hb, without]
  · simp [hb, without]

end Chronos.Lib
