import Coroutine.Machine.Operation

/-! Releasing what user code holds: guards with their release logic, scopes of producers, and raw
fibers. Panics of the release logic of a guard end in it. -/

namespace Coroutine.Machine

variable {C : Type}

/-- Goes on with the release logic of a guard, and then with the guards after it. -/
def releaseStep (w : World C) (fs : List (Frame C)) (name : String) (todo : List (Step C))
    (rest : List (HeldGuard C)) : Machine C :=
  match todo with
  | [] => task w fs (.release rest)
  | s :: todo => task w (.onRelease name todo rest :: fs) (.step s)

def release (w : World C) (fs : List (Frame C)) : List (HeldGuard C) → Machine C
  | [] => answer w fs .unit
  | held :: rest =>
    releaseStep (w.note (.released held.serial held.guard.name)) fs held.guard.name
      held.guard.onDrop rest

def releaseScope (w : World C) (fs : List (Frame C)) : Scope C → Machine C
  | .guard held => task w fs (.release [held])
  | .generator name =>
    match w.handles.find? name with
    | none => answer w fs .unit
    | some g => task { w with handles := w.handles.erase name } fs (.dropHandle g)
  | .iterator none => answer w fs .unit
  | .iterator (some g) => task w fs (.dropHandle g)

/-- Releases a raw fiber. A suspended one is unwound, but while frames are unwound anyway it is
given up. -/
def discard (w : World C) (fs : List (Frame C)) (announced : Bool) (fiber : Fiber C) : Machine C :=
  match fiber.state with
  | .fresh entry => task w fs (.release entry.captures)
  | .suspended _ scopes captures =>
    if panicking fs then
      let given := w.log (.abandonsFiber (stackGuards scopes captures))
      answer (if announced then given else w) fs .unit
    else
      ⟨if announced then w.log .unwindsFiber else w, .unwind .cancel,
        stackFiber scopes captures (.dismantling :: fs)⟩
  | _ => answer w fs .unit

end Coroutine.Machine
