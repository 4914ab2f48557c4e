import Coroutine.Exception.ErrorValue

/-! Exceptions and operation errors, which may hold one another. An exception has an identity and
wraps one error value, the exit signal, another exception or an operation error. Its message names
the kinds of the exceptions around the innermost value; an operation error that reports an
exception shows that exception's message, but hides it from the chain of sources. -/

namespace Coroutine

abbrev ExceptionId := Nat

mutual

/-- What an exception wraps. -/
inductive Failure
  | value (e : ErrorValue)
  | exit
  | exception (e : Exception)
  | operation (e : OpError)

/-- An exception: two mentions of one identity are one exception. -/
structure Exception where
  id : ExceptionId
  failure : Failure

/-- Why an operation on a generator came back without progress. -/
inductive OpError
  | reentrancy (name : String)
  | exhausted (name : String)
  | sentBeforeStart (name : String)
  | raised (e : Exception)
  | fiberAllocation (name : String) (size : Nat)

end

/-- The tracebacks of all exceptions: for each the names of the generators that it escaped from,
innermost first. -/
abbrev Tracebacks := ExceptionId → List String

/-- The full name of the type of what an exception wraps. -/
def Failure.typeName : Failure → String
  | .value e => e.typeName
  | .exit => "fiber_gen::exception::GeneratorExit"
  | .exception _ => "fiber_gen::exception::Exception"
  | .operation _ => "fiber_gen::error::GeneratorError"

/-- The kind of an exception is the short name of the type of what it wraps. -/
def Failure.kind (f : Failure) : String := Text.shortTypeName f.typeName

@[simp] theorem Failure.kind_exit : exit.kind = "GeneratorExit" := by decide

@[simp] theorem Failure.kind_exception (e : Exception) : (exception e).kind = "Exception" :=
  show Text.shortTypeName "fiber_gen::exception::Exception" = "Exception" by decide

@[simp] theorem Failure.kind_operation (e : OpError) : (operation e).kind = "GeneratorError" :=
  show Text.shortTypeName "fiber_gen::error::GeneratorError" = "GeneratorError" by decide

namespace Exception

def kind (e : Exception) : String := e.failure.kind

/-- Whether this asks a producer to unwind. -/
def isExit (e : Exception) : Bool :=
  match e.failure with
  | .exit => true
  | _ => false

end Exception

mutual

def Failure.message : Failure → String
  | .value e => e.message
  | .exit => "GeneratorExit"
  | .exception e => e.message
  | .operation e => e.message

/-- The message of an exception: its kind, and the message of what it wraps. -/
def Exception.message : Exception → String
  | ⟨_, f⟩ => f.kind ++ ": " ++ f.message

def OpError.message : OpError → String
  | .reentrancy name => "generator `" ++ name ++ "` is already running"
  | .exhausted name => "generator `" ++ name ++ "` is exhausted"
  | .sentBeforeStart name => "can't send a value to the just-started generator `" ++ name ++ "`"
  | .raised e => e.message
  | .fiberAllocation name size =>
    "failed to allocate a " ++ toString size ++ "-byte stack for generator `" ++ name ++ "`"

end

mutual

def Failure.inspect (tracebacks : Tracebacks) : Failure → String
  | .value e => e.inspect
  | .exit => "GeneratorExit"
  | .exception e => e.inspect tracebacks
  | .operation e => e.inspect tracebacks

def Exception.inspect (tracebacks : Tracebacks) : Exception → String
  | ⟨id, f⟩ =>
    "Exception \x7b kind: " ++ Text.quoted f.kind ++ ", value: " ++ f.inspect tracebacks ++
      ", traceback: " ++ Text.quotedList (tracebacks id) ++ " \x7d"

def OpError.inspect (tracebacks : Tracebacks) : OpError → String
  | .reentrancy name => "Reentrancy \x7b name: " ++ Text.quoted name ++ " \x7d"
  | .exhausted name => "Exhausted \x7b name: " ++ Text.quoted name ++ " \x7d"
  | .sentBeforeStart name => "SentBeforeStart \x7b name: " ++ Text.quoted name ++ " \x7d"
  | .raised e => "Raised(" ++ e.inspect tracebacks ++ ")"
  | .fiberAllocation name size =>
    "FiberAllocation \x7b name: " ++ Text.quoted name ++ ", stack_size: " ++ toString size ++
      " \x7d"

end

mutual

/-- The messages of the sources of what an exception wraps, from the outside in. -/
def Failure.sources : Failure → List String
  | .value e => e.sources
  | .exit => []
  | .exception e => e.sources
  | .operation _ => []

/-- The messages of the sources of an exception: the wrapped value and its own sources. -/
def Exception.sources : Exception → List String
  | ⟨_, f⟩ => f.message :: f.sources

end

namespace OpError

def label : OpError → String
  | reentrancy _ => "Reentrancy"
  | exhausted _ => "Exhausted"
  | sentBeforeStart _ => "SentBeforeStart"
  | raised _ => "Raised"
  | fiberAllocation _ _ => "FiberAllocation"

/-- The exception that the error reports, if it reports one. -/
def exception? : OpError → Option Exception
  | raised e => some e
  | _ => none

/-- The size of the stack that could not be allocated. -/
def stackSize? : OpError → Option Nat
  | fiberAllocation _ size => some size
  | _ => none

/-- Whether the generator was finished. -/
def isExhausted : OpError → Bool
  | exhausted _ => true
  | _ => false

/-- The messages of the sources of an error: there are none, since an error that reports an
exception stands for it. -/
def sources (_ : OpError) : List String := []

end OpError

end Coroutine
