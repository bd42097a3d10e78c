import Chronos.Lib.Cas

/-!
# The atomic integers

`atomic_int.h`. An `int` has 32 bits, and its operations are those of two's
complement, so that they wrap around; a division by zero traps. The operations of the
header run through `atomic_int_op`, which tries a compare-and-swap until it succeeds.
-/

namespace Chronos.Atomic

open Lib

abbrev AINT_ADD : Int := 0
abbrev AINT_SUB : Int := 1
abbrev AINT_MUL : Int := 2
abbrev AINT_DIV : Int := 3
abbrev AINT_MOD : Int := 4

/-- The `switch` of `atomic_int_op`. -/
def newValue (op : Int) (val value : BitVec 32) : Option (BitVec 32) :=
  if op = AINT_ADD then some (value + val)
  else if op = AINT_SUB then some (value - val)
  else if op = AINT_MUL then some (value * val)
  else if op = AINT_DIV then if val = 0 then none else some (value.sdiv val)
  else if op = AINT_MOD then if val = 0 then none else some (value.srem val)
  else some value

/-! ## Any number of threads -/

/-- The arguments of a call of `atomic_int_op`. -/
structure Op where
  op : Int
  val : BitVec 32
  deriving DecidableEq, Repr

def Op.apply (o : Op) (value : BitVec 32) : Option (BitVec 32) := newValue o.op o.val value

/-- One step of a thread in `atomic_int_op`: it reads the shared integer, computes the
new value, or tries to swap it in. -/
abbrev Step {ι : Type*} [DecidableEq ι] := Cas.Step (ι := ι) Op.apply

/-! ## One thread -/

/-- `__sync_val_compare_and_swap`: the integer after it, and the one it found. -/
def syncValCompareAndSwap (resource old new : BitVec 32) : BitVec 32 × BitVec 32 :=
  (if resource = old then new else resource, resource)

/-- `atomic_int_op`: the integer after it, and the value returned. There is no result
if it traps or the rounds of its loop do not suffice. -/
def atomicIntOp (op : Int) (val : BitVec 32) :
    (rounds : Nat) → BitVec 32 → Option (BitVec 32 × BitVec 32)
  | 0, _ => none
  | rounds + 1, resource => do
    let value := resource
    let new ← newValue op val value
    let (resource, found) := syncValCompareAndSwap resource value new
    if found ≠ value then atomicIntOp op val rounds resource else return (resource, new)

section

variable (rounds : Nat) (resource val : BitVec 32)

def atomicIntInit : BitVec 32 := 0

def atomicIntGet : BitVec 32 := resource

def atomicIntSet : BitVec 32 := val

def atomicIntAdd : Option (BitVec 32 × BitVec 32) := atomicIntOp AINT_ADD val rounds resource

def atomicIntSub : Option (BitVec 32 × BitVec 32) := atomicIntOp AINT_ADD val rounds resource

def atomicIntMul : Option (BitVec 32 × BitVec 32) := atomicIntOp AINT_ADD val rounds resource

def atomicIntDiv : Option (BitVec 32 × BitVec 32) := atomicIntOp AINT_ADD val rounds resource

def atomicIntInc : Option (BitVec 32 × BitVec 32) := atomicIntOp AINT_ADD 1 rounds resource

def atomicIntDec : Option (BitVec 32 × BitVec 32) := atomicIntOp AINT_SUB 1 rounds resource

def atomicIntMod : Option (BitVec 32 × BitVec 32) := atomicIntOp AINT_MOD val rounds resource

end

/-- A call of the header's interface. -/
inductive Call
  | init
  | get
  | set (val : BitVec 32)
  | add (val : BitVec 32)
  | sub (val : BitVec 32)
  | mul (val : BitVec 32)
  | div (val : BitVec 32)
  | inc
  | dec
  | mod (val : BitVec 32)
  deriving DecidableEq, Repr

/-- The integer after a call, and what the call returns. -/
def Call.exec (rounds : Nat) (resource : BitVec 32) :
    Call → Option (BitVec 32 × Option (BitVec 32))
  | init => some (atomicIntInit, none)
  | get => some (resource, some (atomicIntGet resource))
  | set val => some (atomicIntSet val, none)
  | add val => (atomicIntAdd rounds resource val).map (Prod.map id some)
  | sub val => (atomicIntSub rounds resource val).map (Prod.map id some)
  | mul val => (atomicIntMul rounds resource val).map (Prod.map id some)
  | div val => (atomicIntDiv rounds resource val).map (Prod.map id some)
  | inc => (atomicIntInc rounds resource).map (Prod.map id some)
  | dec => (atomicIntDec rounds resource).map (Prod.map id some)
  | mod val => (atomicIntMod rounds resource val).map (Prod.map id some)

/-- The calls made one after the other: the integer at the end, and what each call
returns. -/
def runCalls (exec : BitVec 32 → Call → Option (BitVec 32 × Option (BitVec 32))) :
    BitVec 32 → List Call → Option (BitVec 32 × List (Option (BitVec 32)))
  | resource, [] => some (resource, [])
  | resource, call :: calls => do
    let (resource, ret) ← exec resource call
    let (resource, rets) ← runCalls exec resource calls
    return (resource, ret :: rets)

end Chronos.Atomic
