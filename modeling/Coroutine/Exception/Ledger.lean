import Coroutine.Exception.Basic
import Coroutine.Table

/-! The exceptions of a session: how they are specified and made, their tracebacks, and the numbers
they get in the order in which they are first met. -/

namespace Coroutine

mutual

/-- An exception to be made, or one that has a name already. -/
inductive ExceptionSpec
  | named (name : String)
  | fresh (f : FailureSpec)

inductive FailureSpec
  | value (e : ErrorValue)
  | exit
  | exception (e : ExceptionSpec)
  | operation (e : OpErrorSpec)

inductive OpErrorSpec
  | reentrancy (name : String)
  | exhausted (name : String)
  | sentBeforeStart (name : String)
  | raised (e : ExceptionSpec)
  | fiberAllocation (name : String) (size : Nat)

end

instance : Inhabited ExceptionSpec := ⟨.named ""⟩

instance : Inhabited FailureSpec := ⟨.exit⟩

instance : Inhabited OpErrorSpec := ⟨.reentrancy ""⟩

/-- The exceptions made so far: their tracebacks by identity, those met so far in the order in
which they were met, and those with a name. -/
structure Ledger where
  tracebacks : Array (List String) := #[]
  met : Array ExceptionId := #[]
  named : Table Exception := .empty
  deriving Inhabited

namespace Ledger

/-- The names of the generators that an exception escaped from, innermost first. -/
def traceback (l : Ledger) : Tracebacks := fun id => l.tracebacks.getD id []

/-- A new exception with an empty traceback. -/
def create (l : Ledger) (f : Failure) : Exception × Ledger :=
  (⟨l.tracebacks.size, f⟩, { l with tracebacks := l.tracebacks.push [] })

/-- The number of an exception that is met: its place in the order of first meetings. -/
def meet (l : Ledger) (e : Exception) : Nat × Ledger :=
  match l.met.idxOf? e.id with
  | some number => (number, l)
  | none => (l.met.size, { l with met := l.met.push e.id })

/-- Records that an exception escaped from the generator called `name`. -/
def escape (l : Ledger) (e : Exception) (name : String) : Ledger :=
  { l with tracebacks := l.tracebacks.modify e.id (· ++ [name]) }

def call (l : Ledger) (name : String) (e : Exception) : Ledger :=
  { l with named := l.named.insert name e }

def createMet (l : Ledger) (f : Failure) : Exception × Ledger :=
  let (e, l) := l.create f
  (e, (l.meet e).2)

mutual

/-- The exception that a specification asks for. Whatever it wraps is made before it. -/
def make (l : Ledger) : ExceptionSpec → Exception × Ledger
  | .named name =>
    match l.named.find? name with
    | some e => (e, (l.meet e).2)
    | none => l.createMet (.value (.text ("no exception " ++ name)))
  | .fresh f =>
    let (f, l) := l.makeFailure f
    l.createMet f

def makeFailure (l : Ledger) : FailureSpec → Failure × Ledger
  | .value e => (.value e, l)
  | .exit => (.exit, l)
  | .exception e =>
    let (e, l) := l.make e
    (.exception e, l)
  | .operation e =>
    let (e, l) := l.makeError e
    (.operation e, l)

def makeError (l : Ledger) : OpErrorSpec → OpError × Ledger
  | .reentrancy name => (.reentrancy name, l)
  | .exhausted name => (.exhausted name, l)
  | .sentBeforeStart name => (.sentBeforeStart name, l)
  | .raised e =>
    let (e, l) := l.make e
    (.raised e, l)
  | .fiberAllocation name size => (.fiberAllocation name size, l)

end

end Ledger

/-- An operation error as it is reported: with the number and the traceback of the exception that
it reports. -/
structure ErrorReport where
  error : OpError
  number : Nat
  traceback : List String

/-- Reports an operation error, meeting the exception in it. -/
def Ledger.report (l : Ledger) (e : OpError) : ErrorReport × Ledger :=
  match e.exception? with
  | none => (⟨e, 0, []⟩, l)
  | some x =>
    let (number, l) := l.meet x
    (⟨e, number, l.traceback x.id⟩, l)

/-- All that can be asked of an exception. -/
structure Description where
  number : Nat
  kind : String
  message : String
  value : String
  inspect : String
  traceback : List String
  isExit : Bool
  carried : Carried
  isOperation : Bool
  isException : Bool
  sources : List String

/-- Describes an exception, meeting it. -/
def Ledger.describe (l : Ledger) (e : Exception) : Description × Ledger :=
  let (number, l) := l.meet e
  let carried := match e.failure with
    | .value v => v.carried
    | _ => .nothing
  let isOperation := match e.failure with
    | .operation _ => true
    | _ => false
  let isException := match e.failure with
    | .exception _ => true
    | _ => false
  (⟨number, e.kind, e.message, e.failure.message, e.inspect l.traceback, l.traceback e.id, e.isExit,
    carried, isOperation, isException, e.sources⟩, l)

end Coroutine
