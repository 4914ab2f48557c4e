/-! The sizes of the stacks that producers run on. -/

namespace Coroutine

/-- The smallest size of a stack, in bytes. -/
def minStackSize : Nat := 4096

/-- The largest size of a stack, in bytes. -/
def maxStackSize : Nat := 1 <<< 30

/-- The size of a stack when none is configured, in bytes. -/
def defaultStackSize : Nat := 262144

/-- The memory that there is for one stack if nothing else is said: a larger stack is refused when
it is to be allocated, even if its size is in range. -/
def defaultStackMemory : Nat := 1 <<< 26

/-- Whether a stack may be asked to have this size. -/
def stackSizeInRange (size : Nat) : Bool := minStackSize ≤ size && size ≤ maxStackSize

structure AllocationFailure where
  size : Nat
  deriving DecidableEq, Repr

namespace AllocationFailure

def message (failure : AllocationFailure) : String :=
  "cannot allocate a fiber stack of " ++ toString failure.size ++ " bytes"

def inspect (failure : AllocationFailure) : String :=
  "AllocationFailure \x7b stack_size: " ++ toString failure.size ++ " \x7d"

end AllocationFailure

/-- Refuses a size out of range. -/
def checkStackSize (size : Nat) : Except AllocationFailure Unit :=
  if stackSizeInRange size then .ok () else .error ⟨size⟩

end Coroutine
