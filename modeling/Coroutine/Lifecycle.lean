/-! The lifecycle of a generator: its statuses, the operations that may change them, and the table
that says for each pair which status follows and what has to be done. -/

namespace Coroutine

/-- Where a generator stands: its producer never ran, it is executing or suspended, or it is
over. -/
inductive Status
  | unused
  | running
  | finished
  deriving DecidableEq, Repr, Inhabited

/-- What may change a status: three requests of the caller and two events of the producer. -/
inductive Operation
  | resume
  | throw
  | close
  | yielded
  | terminated
  deriving DecidableEq, Repr

/-- What a generator has to do to honour an operation. -/
inductive Action
  | start
  | switchIn
  | deliver
  | finalize
  | raise
  | exhausted
  | nothing
  | illegal
  deriving DecidableEq, Repr

/-- The status that follows an operation and the action that it asks for. -/
def transition : Status → Operation → Status × Action
  | .unused, .resume => (.running, .start)
  | .unused, .throw => (.finished, .raise)
  | .unused, .close => (.finished, .finalize)
  | .unused, .yielded | .unused, .terminated => (.unused, .illegal)
  | .running, .resume | .running, .throw | .running, .close => (.running, .switchIn)
  | .running, .yielded => (.running, .deliver)
  | .running, .terminated => (.finished, .finalize)
  | .finished, .resume => (.finished, .exhausted)
  | .finished, .throw => (.finished, .raise)
  | .finished, .close => (.finished, .nothing)
  | .finished, .yielded | .finished, .terminated => (.finished, .illegal)

namespace Status

/-- Every status, in the order of the lifecycle. -/
def all : List Status := [unused, running, finished]

/-- The place of a status in the lifecycle. -/
def rank : Status → Nat
  | unused => 0
  | running => 1
  | finished => 2

/-- Whether no value will come any more. -/
def isFinished : Status → Bool
  | finished => true
  | _ => false

@[simp] theorem isFinished_iff (s : Status) : s.isFinished = true ↔ s = finished := by
  cases s <;> decide

def label : Status → String
  | unused => "Unused"
  | running => "Running"
  | finished => "Finished"

def message : Status → String
  | unused => "unused"
  | running => "running"
  | finished => "finished"

def order (a b : Status) : Ordering := compare a.rank b.rank

end Status

namespace Operation

/-- Every operation, the caller's first. -/
def all : List Operation := [resume, throw, close, yielded, terminated]

def label : Operation → String
  | resume => "Resume"
  | throw => "Throw"
  | close => "Close"
  | yielded => "Yielded"
  | terminated => "Terminated"

end Operation

namespace Action

def label : Action → String
  | start => "Start"
  | switchIn => "SwitchIn"
  | deliver => "Deliver"
  | finalize => "Finalize"
  | raise => "Raise"
  | exhausted => "Exhausted"
  | nothing => "Nothing"
  | illegal => "Illegal"

end Action

end Coroutine
