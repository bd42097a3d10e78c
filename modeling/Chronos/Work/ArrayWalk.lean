import Mathlib.Tactic.Ring
import Chronos.Lib.Scanf
import Chronos.Lib.Stride

/-!
# The array walks

`array_walk` and `array_backwards` step through an array by one cache line of integers at a
time and wrap around at its end. They share the struct and its initialisation, and differ in
the index they take next.
-/

namespace Chronos.Work

open Lib

abbrev sizeofInt : Nat := 4

/-- `struct array_walk_data`; `array` is what an index finds there, in bounds or not. -/
structure ArrayWalkData where
  array : Int → Int
  numElements : Int
  nextElement : Int

/-- The position is an index of the array, whose length fits twice into a `long`. -/
structure InArray (data : ArrayWalkData) : Prop where
  size : data.numElements < 2 ^ 62
  nonneg : 0 ≤ data.nextElement
  lt : data.nextElement < data.numElements

section Step

variable {data : ArrayWalkData}

theorem InArray.update (h : InArray data) (array : Int → Int) : InArray { data with array } :=
  ⟨h.size, h.nonneg, h.lt⟩

end Step

/-! ## A call -/

end Chronos.Work
