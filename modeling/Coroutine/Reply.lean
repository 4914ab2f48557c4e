import Coroutine.Exception.Ledger
import Coroutine.Record
import Coroutine.Value

/-! What comes of steps: replies to the caller, and the events that happen meanwhile. -/

namespace Coroutine

/-- What an iterator hands out. -/
inductive Item (E : Type)
  | value (v : Value)
  | failed (e : E)
  | ended

/-- What can be asked of a generator without running it. -/
structure GeneratorInfo where
  name : String
  status : Status
  running : Bool
  deriving DecidableEq, Repr

namespace GeneratorInfo

def inspect (i : GeneratorInfo) : String :=
  "Generator \x7b name: " ++ Text.quoted i.name ++ ", status: " ++ i.status.label ++
    ", running: " ++ toString i.running ++ " \x7d"

end GeneratorInfo

/-- What can be asked of a raw fiber without running it. -/
structure FiberInfo where
  size : Nat
  started : Bool
  finished : Bool
  deriving DecidableEq, Repr

namespace FiberInfo

def inspect (i : FiberInfo) : String :=
  "Fiber \x7b stack_size: " ++ toString i.size ++ ", started: " ++ toString i.started ++
    ", finished: " ++ toString i.finished ++ " \x7d"

end FiberInfo

inductive Reply
  | ok
  | noHandle
  | noIterator
  | noFiber
  | yielded (v : Value)
  | returned (v : Value)
  | closed
  | failed (r : ErrorReport)
  | info (i : GeneratorInfo)
  /-- What a producer sees of its own generator. -/
  | selfInfo (i : GeneratorInfo)
  /-- A producer's generator is being dropped. -/
  | gone
  /-- Whether two generators are one, if they are of one sort. -/
  | sameGenerator (answer : Option Bool)
  | isSelf (answer : Option Bool)
  | items (is : List (Item ErrorReport))
  | named (number : Nat)
  | description (d : Description)
  | sameException (answer : Bool)
  | allocationFailure (failure : AllocationFailure)
  | switched (finished : Bool)
  | fiberInfo (i : FiberInfo)
  | panicked (message : String)

/-- What happens during a step. -/
inductive Event
  | emitted (v : Value)
  | producerName (name : String)
  | caught (number : Nat) (kind : String)
  | called (r : Reply)
  | viewed (r : Reply)
  /-- The guard with this serial number is released. -/
  | released (serial : Nat) (name : String)
  | onRelease (name : String) (r : Reply)
  | cleanup (g : GeneratorId) (name : String) (payload : List Value)
  | onCleanup (r : Reply)
  | logged (r : Record)

end Coroutine
