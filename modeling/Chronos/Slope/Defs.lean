import Chronos.Lib.Binary64
import Chronos.Taskset.Sizes

/-!
# Slope files

A slope file has a line for each working set size at which the workload was measured.
`update_slopes` writes it, and `get_workload_slope` looks up a size in it, between two
lines by linear interpolation. A file is the list of its lines; what `%lf` prints has
six decimals, and is read back as the nearest `double`.
-/

namespace Chronos.Slope

open Lib Taskset

abbrev SLOPE_GEN_WSS_SAMPLES : Nat := 10

/-- A line of a slope file, with the digits of the slope as a number. -/
structure Line where
  wss : Int
  slope : ℚ
  deriving DecidableEq, Repr

/-- What `%lf` prints of a `double`. -/
def printSlope (slope : ℚ) : ℚ := roundEven (slope * 10 ^ 6) / 10 ^ 6

/-- The size that the workload really uses. -/
def realWss (w : Workload) (taskWss groupWss : Nat) : Int :=
  (if w.capabilities &&& WORKLOAD_CAP_TASK_WSS ≠ 0 then (taskWss : Int) else 0) +
    (if w.capabilities &&& WORKLOAD_CAP_GROUP_WSS ≠ 0 then (groupWss : Int) else 0)

/-- `put_workload_slope`, for a file that can be opened. -/
def putWorkloadSlope (w : Workload) (slope : ℚ) (taskWss groupWss : Nat) (file : List Line) :
    List Line :=
  file ++ [⟨realWss w taskWss groupWss, printSlope slope⟩]

/-! ## Writing a file -/

/-- `min + i * (max - min) / SLOPE_GEN_WSS_SAMPLES`, in `unsigned int`. -/
def sampleWss (min max i : Nat) : Nat :=
  (min + i * ((max + 2 ^ 32 - min) % 2 ^ 32) % 2 ^ 32 / SLOPE_GEN_WSS_SAMPLES) % 2 ^ 32

def noWssVariation (w : Workload) : Bool :=
  w.capabilities &&& (WORKLOAD_CAP_TASK_WSS ||| WORKLOAD_CAP_GROUP_WSS) = 0

/-- The file that `update_slopes` leaves, where `measured i` is the average slope of
the `i`-th sample. -/
def updateSlopes (w : Workload) (measured : Nat → ℚ) : List Line :=
  let samples := if noWssVariation w then 1 else SLOPE_GEN_WSS_SAMPLES
  (List.range samples).foldl (fun file i =>
    putWorkloadSlope w (measured i) (sampleWss w.minTaskWss w.maxTaskWss i)
      (sampleWss w.minGroupWss w.maxGroupWss i) file) []

/-! ## Looking up a size -/

/-- The locals of `get_workload_slope`. A slope below zero means that there is no such
line yet, and then the size is not used. -/
structure Neighbours where
  lowerWss : Int
  lowerSlope : ℚ
  higherWss : Int
  higherSlope : ℚ

def Neighbours.start : Neighbours := ⟨0, -1, 0, -1⟩

/-- The linear interpolation. -/
def Neighbours.interpolate (s : Neighbours) (target : Int) : ℚ :=
  let percentageBetween := fl (fl (target - s.lowerWss : Int) / fl (s.higherWss - s.lowerWss : Int))
  fl (s.lowerSlope + fl (percentageBetween * fl (s.higherSlope - s.lowerSlope)))

/-- The search through the lines of the file, and what is made of its result. -/
def searchSlope (target : Int) : Neighbours → List Line → ℚ
  | s, [] => if s.higherSlope < 0 ∨ s.lowerSlope < 0 then -1 else s.interpolate target
  | s, l :: lines =>
    let thisSlope := fl l.slope
    if l.wss = target then thisSlope
    else if l.wss < target ∧ (s.lowerSlope < 0 ∨ s.lowerWss < l.wss) then
      searchSlope target { s with lowerWss := l.wss, lowerSlope := thisSlope } lines
    else if target < l.wss ∧ (s.higherSlope < 0 ∨ l.wss < s.higherWss) then
      searchSlope target { s with higherWss := l.wss, higherSlope := thisSlope } lines
    else searchSlope target s lines

/-- `get_workload_slope`, for a file that can be opened. -/
def getWorkloadSlope (w : Workload) (taskWss groupWss : Nat) (file : List Line) : ℚ :=
  searchSlope (realWss w taskWss groupWss) .start file

end Chronos.Slope
