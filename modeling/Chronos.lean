import Chronos.Lib.Ring
import Chronos.Lib.Tiling
import Chronos.Lib.ByteMemory
import Chronos.Salloc.Typed
import Chronos.Salloc.Blocks
import Chronos.Salloc.Lists
import Chronos.Salloc.Release
import Chronos.Lib.Binary64
import Chronos.Lib.Fold
import Chronos.Lib.Lines
import Chronos.Lib.Nesting
import Chronos.Lib.Update
import Chronos.Run.Defs
import Chronos.Run.Output
import Chronos.Run.StartTime
import Chronos.Salloc.Allocate
import Chronos.Salloc.Growth
import Chronos.Task.Defs
import Chronos.Task.Locking
import Chronos.Task.Release
import Chronos.Taskset.Abstract
import Chronos.Taskset.Entries
import Chronos.Taskset.Locks
import Chronos.Taskset.RoundTrip
import Chronos.Taskset.Structure
import Chronos.Lib.Path
import Chronos.Run.Failure
import Chronos.Run.Lifetime
import Chronos.Run.Once
import Chronos.Task.Statistics
import Chronos.Task.Batch
import Chronos.Taskset.Leaders
import Chronos.Taskset.Sizes
import Chronos.Taskset.Domains
import Chronos.Taskset.Periods
import Chronos.Slope.Coverage
import Chronos.Salloc.Carve
import Chronos.Shared.GiveBack
import Chronos.Lib.Cas
import Chronos.Atomic.Linearizable
import Chronos.Atomic.Arithmetic
import Chronos.Work.Abort
import Chronos.Run.Terminations
import Chronos.Salloc.Restore
import Chronos.Salloc.Failure
import Chronos.Salloc.Alignment
import Chronos.Lib.Register
import Chronos.Work.Random
import Chronos.Lib.Linked
import Chronos.Work.LinkedList
import Chronos.Lib.SearchTree
import Chronos.Work.Bst
import Chronos.Task.Deadlines
import Chronos.Task.Multiples
import Chronos.Lib.Nearest
import Chronos.Slope.Lookup
import Chronos.Slope.Repair
import Chronos.Taskset.Buffers
import Chronos.Taskset.Accepted
import Chronos.Lib.Stride
import Chronos.Work.ArrayWalk
import Chronos.Aborts.Region
import Chronos.Aborts.Handles
import Chronos.Run.Schedulers
import Chronos.Lib.Access
import Chronos.Task.Accesses
import Chronos.Taskset.OldMemory
import Chronos.Task.Difference
import Chronos.Salloc.FirstFit
import Chronos.Work.Walk
import Chronos.Slope.Invalidators
import Chronos.Lib.Allocated
import Chronos.Lib.Deadlock
import Chronos.Lib.Standstill
import Chronos.Run.Locks
import Chronos.Lib.Helpers
import Chronos.Slope.Measure
import Chronos.Lib.Rounding
import Chronos.Work.Timer
import Chronos.Work.Cleanup
import Chronos.Work.ArrayRandom
import Chronos.Work.Estimate
import Chronos.Lib.Getopt
import Chronos.Run.CommandLine
import Chronos.Run.Requests
import Chronos.Lib.Directory
import Chronos.Slope.Store
import Chronos.Slope.Generator
import Chronos.Slope.Histories
import Chronos.Lib.Budget
import Chronos.Slope.Calibration
import Chronos.Slope.Accuracy
import Chronos.Lib.Printf
import Chronos.Run.Records
import Chronos.Run.Releases
import Chronos.Run.Report
