import Coroutine.Lifecycle
import Coroutine.Program

/-! Generators and fibers as they are kept between steps. -/

namespace Coroutine

/-- A guard that is held somewhere. Serial numbers tell guards of one name apart. -/
structure HeldGuard (C : Type) where
  serial : Nat
  guard : Guard C

/-- What is on a fiber's stack and is released when its scope ends. -/
inductive Scope (C : Type)
  | guard (held : HeldGuard C)
  /-- The generator called `name` belongs to this scope. -/
  | generator (name : String)
  /-- An iterator: the generator it pulls from, until it has ended. -/
  | iterator (source : Option GeneratorId)

/-- An entry procedure that has not run: its code and the guards that it captures. -/
structure Closure (C : Type) where
  code : C
  captures : List (HeldGuard C)

/-- Where a fiber stands. -/
inductive FiberState (C : Type)
  | fresh (entry : Closure C)
  /-- Suspended: how it goes on, the scopes on its stack with the innermost first, and the guards
  that its entry procedure captured. -/
  | suspended (k : Except Exception (Option Value) → C) (scopes : List (Scope C))
      (captures : List (HeldGuard C))
  /-- Control is inside. -/
  | active
  | over

/-- A fiber with a stack of its own. -/
structure Fiber (C : Type) where
  size : Nat
  state : FiberState C

namespace Fiber

variable {C : Type}

def info (f : Fiber C) : FiberInfo :=
  match f.state with
  | .fresh _ => ⟨f.size, false, false⟩
  | .over => ⟨f.size, true, true⟩
  | _ => ⟨f.size, true, false⟩

end Fiber

/-- What a generator does with its payload when it is finalized. -/
inductive Cleanup (C : Type)
  /-- A plain generator has no use for it. -/
  | discard
  /-- The payload is handed out, the steps are made and the panic, if there is one, is raised. -/
  | callback (steps : List (Step C)) (panic : Option String)

/-- A generator. Three slots hand values, injected exceptions and the outcome over between the
producer and its caller. -/
structure Generator (C : Type) where
  name : String
  plain : Bool
  stackSize : Nat
  status : Status
  running : Bool
  value : Option Value
  error : Option Exception
  outcome : Option (Except Exception Value)
  payload : Option (List Value)
  /-- Whether the producer has the payload in use. -/
  payloadHeld : Bool
  entry : Option (Closure C)
  cleanup : Option (Cleanup C)
  fiber : Option (Fiber C)
  /-- The number of handles. -/
  handles : Nat

namespace Generator

variable {C : Type}

/-- A generator that is finished and owns nothing. -/
def vacant : Generator C where
  name := ""
  plain := true
  stackSize := 0
  status := .finished
  running := false
  value := none
  error := none
  outcome := none
  payload := none
  payloadHeld := false
  entry := none
  cleanup := none
  fiber := none
  handles := 0

/-- A new generator with one handle. -/
def ofDefinition (d : Definition C) (captures : List (HeldGuard C)) : Generator C where
  name := d.name
  plain := d.context.isNone
  stackSize := d.stackSize
  status := .unused
  running := false
  value := none
  error := none
  outcome := none
  payload := some (d.context.getD [])
  payloadHeld := false
  entry := some ⟨d.entry, captures⟩
  cleanup := some (if d.context.isNone then .discard else .callback d.cleanup d.cleanupPanic)
  fiber := none
  handles := 1

def info (g : Generator C) : GeneratorInfo := ⟨g.name, g.status, g.running⟩

def emptySlots (g : Generator C) : Generator C :=
  { g with value := none, error := none, outcome := none }

end Generator

end Coroutine
