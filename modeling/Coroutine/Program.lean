import Coroutine.Step
import Coroutine.Reply

/-! User code. The code of a producer is a state; what it does next is a request, which says which
state it goes on in. A program tells the request of every state, so a producer may be any process,
finite or endless, that depends on what it receives. -/

namespace Coroutine

/-- What a producer's own view of its generator is used for. -/
inductive View
  | resume (sent : Option Value)
  | throw (e : ExceptionSpec)
  | close
  | info
  | is (g : String)

/-- What the code of a producer does next. -/
inductive Request (C : Type)
  /-- The entry procedure is over, with a value or an exception. -/
  | finish (outcome : Except Exception Value)
  | panic (message : String)
  | silent (c : C)
  /-- Suspends with a value, and goes on with what is sent or with the exception raised here. -/
  | yield (v : Value) (k : Except Exception (Option Value) → C)
  | emit (v : Value) (c : C)
  | producerName (c : C)
  | append (v : Value) (c : C)
  | make (e : ExceptionSpec) (k : Exception → C)
  /-- Makes an exception that wraps an operation error. -/
  | wrap (e : OpError) (k : Exception → C)
  /-- Notes that an exception was caught, and names it. -/
  | caught (e : Exception) (name : Option String) (c : C)
  /-- Puts a guard on the stack. -/
  | hold (guard : Guard C) (c : C)
  /-- Names a new generator, whose name then belongs to the stack. -/
  | holdGenerator (name : String) (definition : Definition C) (c : C)
  /-- Puts an iterator on the stack, if there is the handle, and tells whether there is. -/
  | holdIterator (g : String) (into : Bool) (k : Bool → C)
  | pull (k : Item OpError → C)
  | leave (c : C)
  /-- Makes a step; a panic goes through unless panics are caught. -/
  | call (s : Step C) (catchesPanics : Bool) (k : Reply → C)
  /-- Uses the producer's own view of its generator, if that is still there. -/
  | view (v : View) (k : Reply → C)

/-- A program: the request of every state of user code. -/
structure Program (C : Type) where
  next : C → Request C

end Coroutine
