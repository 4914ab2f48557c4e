import Coroutine.Panic
import Coroutine.Progress
import Coroutine.World

/-! The machine that carries out steps. It has a world, a control and a stack of frames. Control is
inside the stack of a fiber exactly if the frame of the switch into that fiber is on the stack: the
frames above it are the fiber's, the frames below it are those of whoever switched in. Each move of
the machine is one application of a function that is not recursive; what has to happen afterwards is
always kept in frames. -/

namespace Coroutine

/-- What a frame gets from the frames that were above it. -/
inductive Answer
  | unit
  /-- How an entry procedure ended. -/
  | outcome (r : Except Exception Value)
  /-- How an operation that may run a producer ended. -/
  | progress (r : Except OpError (Progress Value Value))
  | closed (r : Except OpError Unit)
  | reply (r : Reply)

/-- What the machine can be told to do. -/
inductive Task (C : Type)
  | resume (g : GeneratorId) (sent : Option Value)
  /-- Gives an unused generator its fiber. -/
  | start (g : GeneratorId)
  | throw (g : GeneratorId) (e : Exception)
  | close (g : GeneratorId)
  /-- Switches into the producer and interprets how it came back. -/
  | drive (g : GeneratorId)
  /-- The producer goes on after the yield point where it was suspended. -/
  | wake (g : GeneratorId) (k : Except Exception (Option Value) → C)
  /-- The producer switched out. -/
  | suspended (g : GeneratorId)
  /-- The producer is over. -/
  | terminated (g : GeneratorId)
  /-- Finishes a generator without letting its producer run. -/
  | abandon (g : GeneratorId)
  /-- Releases what a finished generator owns: its fiber first, -/
  | finalize (g : GeneratorId)
  /-- then an entry procedure that never ran, -/
  | releaseEntry (g : GeneratorId)
  /-- then the slots, and the payload through the cleanup. -/
  | releasePayload (g : GeneratorId)
  | dropHandle (g : GeneratorId)
  | release (guards : List (HeldGuard C))
  | releaseScope (s : Scope C)
  /-- Releases a raw fiber, with log records if it is announced. -/
  | discard (announced : Bool) (fiber : Fiber C)
  | step (s : Step C)

/-- What waits for an answer. -/
inductive Frame (C : Type)
  /-- A scope of the producer. -/
  | scope (s : Scope C)
  /-- The entry procedure of a fiber, which owns what it captured. -/
  | closure (captures : List (HeldGuard C))
  /-- The switch into the fiber of `g`. -/
  | driving (g : GeneratorId)
  /-- The forced unwinding of the fiber of `g`. -/
  | destroying (g : GeneratorId)
  /-- The switch into the raw fiber called `f`. -/
  | switching (f : String) (size : Nat)
  /-- The forced unwinding of a raw fiber. -/
  | dismantling
  /-- Code that goes on inside a new scope. -/
  | entering (s : Scope C) (c : C)
  | resuming (c : C)
  /-- Code that waits for the reply to a step. -/
  | calling (catchesPanics : Bool) (k : Reply → C)
  /-- Code that waits for the item of the iterator on top of its stack, which pulls from `g`. -/
  | pulling (g : GeneratorId) (k : Item OpError → C)
  /-- Code that waits for its own view of `g`. -/
  | viewing (g : GeneratorId) (k : Reply → C)
  /-- An answer that is given once something has been released. -/
  | keeping (a : Answer)
  /-- The frames below are left once something has been released. -/
  | unwinding (u : Unwinding)
  /-- Panics end here, and `a` is the answer. -/
  | catching (a : Answer)
  /-- Closing `g` waits for its producer. -/
  | closing (g : GeneratorId)
  /-- `g` yielded after being closed and is being finished. -/
  | violating (g : GeneratorId)
  /-- The last handle of `g` is dropped. -/
  | dropping (g : GeneratorId)
  /-- The entry procedure of `g` is being released. -/
  | emptying (g : GeneratorId)
  /-- A cleanup callback: the steps still to be made and the panic at the end. -/
  | cleaning (todo : List (Step C)) (panic : Option String)
  /-- The release logic of a guard: the steps still to be made, and the guards after it. -/
  | onRelease (name : String) (todo : List (Step C)) (rest : List (HeldGuard C))
  /-- A step that reports what came of an operation. -/
  | reporting
  /-- A step that holds a handle. -/
  | holding (g : GeneratorId)
  /-- A step that pulls on the iterator called `it`: how many items are still to be pulled, and
  those pulled so far, the latest first. -/
  | pullingNamed (it : String) (g : GeneratorId) (left : Nat) (items : List (Item ErrorReport))
  /-- The iterator called `it` has ended with `item` and drops its handle. -/
  | endingNamed (it : String) (left : Nat) (items : List (Item ErrorReport)) (item : Item OpError)
  /-- A panicking caller that owns handles. -/
  | owningHandles (gs : List GeneratorId)
  | owningFibers (announced : Bool) (fibers : List (Fiber C))

/-- What the machine is about to do. -/
inductive Control (C : Type)
  | code (c : C)
  | task (t : Task C)
  | answer (a : Answer)
  | unwind (u : Unwinding)
  /-- A panic left a release that was made while frames were unwound. -/
  | aborted
  /-- A frame got an answer that it cannot wait for. -/
  | stuck

structure Machine (C : Type) where
  world : World C
  control : Control C
  frames : List (Frame C)

namespace Frame

variable {C : Type}

/-- Whether the frame releases something while frames are unwound. -/
def isUnwinding : Frame C → Bool
  | unwinding _ => true
  | _ => false

end Frame

def panicking {C : Type} (fs : List (Frame C)) : Bool := fs.any Frame.isUnwinding

/-- The frames on top of the stack that belong to the running fiber: its scopes and what its entry
procedure captured. The rest starts with the switch into the fiber. -/
def splitFiber {C : Type} :
    List (Frame C) → Option (List (Scope C) × List (HeldGuard C) × List (Frame C))
  | .scope s :: fs => (splitFiber fs).map fun (scopes, captures, rest) =>
      (s :: scopes, captures, rest)
  | .closure captures :: fs => some ([], captures, fs)
  | _ => none

/-- The stack of a fiber on top of the frames below it. -/
def stackFiber {C : Type} (scopes : List (Scope C)) (captures : List (HeldGuard C))
    (rest : List (Frame C)) : List (Frame C) :=
  scopes.map .scope ++ .closure captures :: rest

/-- The serial numbers of the guards on the stack of a fiber. -/
def stackGuards {C : Type} (scopes : List (Scope C)) (captures : List (HeldGuard C)) : List Nat :=
  scopes.filterMap (fun
    | .guard held => some held.serial
    | _ => none) ++ captures.map HeldGuard.serial

/-- The generator whose producer the running code belongs to. -/
def producer? {C : Type} (fs : List (Frame C)) : Option GeneratorId :=
  match splitFiber fs with
  | some (_, _, .driving g :: _) => some g
  | _ => none

end Coroutine
