import Coroutine.Lifecycle

/-! Panics, which leave frames without an answer, and their messages. -/

namespace Coroutine

/-- A broken rule of the machine's own, which no run should meet. -/
inductive Fault
  | illegal (name : String) (op : Operation) (action : Action) (status : Status)
  | slotOccupied
  | exceptionInFlight (name : String)
  | noValue (name : String)
  | payloadReleased
  | fiberInUse
  deriving DecidableEq, Repr

inductive Panic
  | text (message : String)
  /-- The generator called `name` yielded after being closed. -/
  | ignoredExit (name : String)
  | outOfMemory
  | fault (f : Fault)
  deriving DecidableEq, Repr

namespace Fault

def message : Fault → String
  | illegal name op action status =>
    "generator `" ++ name ++ "`: " ++ op.label ++ " cannot lead to " ++ action.label ++ " while " ++
      status.message
  | slotOccupied => "hand-off slot was already occupied"
  | exceptionInFlight name => "generator `" ++ name ++ "` yields with an exception in flight"
  | noValue name => "generator `" ++ name ++ "` switched out without yielding a value"
  | payloadReleased => "context payload released while the producer runs"
  | fiberInUse => "already borrowed"

end Fault

namespace Panic

def message : Panic → String
  | text m => m
  | ignoredExit name => "generator `" ++ name ++ "` yielded after being closed"
  | outOfMemory => "out of memory"
  | fault f => f.message

end Panic

/-- Why frames are left without an answer. -/
inductive Unwinding
  | panic (p : Panic)
  /-- The fiber whose frames are left is destroyed. -/
  | cancel
  deriving DecidableEq, Repr

end Coroutine
