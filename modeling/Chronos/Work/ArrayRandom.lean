import Mathlib.Data.Int.CardIntervalMod
import Chronos.Work.ArrayWalk
import Chronos.Work.Walk

/-!
# The random walk through the array

`array_random` shares the struct of the array walks and takes its next index from a shift
register that each task seeds for itself. The register goes through all numbers but zero, so
that the walk is as even over a period as whole numbers allow.
-/

namespace Chronos.Work

open Function Lib

section Call

variable {data : ArrayRandomData}

end Call

/-! ## A period -/

end Chronos.Work
